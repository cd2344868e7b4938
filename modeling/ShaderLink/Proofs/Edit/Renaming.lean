import ShaderLink.Edit.Words
import ShaderLink.Proofs.Token.Tiling
import ShaderLink.Proofs.Edit.SpliceMap
import ShaderLink.Proofs.Sorting

/-!
# Renaming whole words

`renameWords text id table` splices the new names of the words of `text` over them, taking the
words from the token listing. Because the tokens tile the text (`Lexes`), the renamed text is
the tiling with each renamed word replaced and every other token, blanks and comments
included, kept as it is (`renamedTexts`): a word inside a comment or a number's suffix is part
of another token and is never renamed, and a word after a `.` is a member name and is kept.

The splices are the spans of listed tokens, which ascend through the text, so splicing never
faults and its map passes the coverage check (`renameWords_spec`). A text that cannot be read
as tokens is returned unchanged.
-/

namespace ShaderLink

/-- The texts of the tokens of a tiling after renaming, given whether the last token not
skipped was a `.`: a word that `table` renames becomes its new name unless it follows a `.`;
every other token, blanks and comments included, keeps its text. -/
def renamedTexts (table : String → Option String) : Bool → List Token → List String
  | _, [] => []
  | afterDot, t :: ts =>
    if TokenSet.code.ignores t.kind then t.text :: renamedTexts table afterDot ts
    else
      (if t.kind == .word && !afterDot then (table t.text).getD t.text else t.text) ::
        renamedTexts table (t.kind == .symbol && t.text == ".") ts

/-- The splice a token gets: its new name over its span, for a word that `table` renames and
that does not follow a `.`. -/
def wordSplice? (table : String → Option String) (afterDot : Bool) (t : Token) : Option Splice :=
  if t.kind == .word && !afterDot then (table t.text).map fun r => ⟨t.span, r⟩ else none

/-- A token's splice lies on the token's span. -/
theorem wordSplice?_span {table : String → Option String} {afterDot : Bool} {t : Token}
    {s : Splice} (h : wordSplice? table afterDot t = some s) : s.span = t.span := by
  simp only [wordSplice?] at h
  split at h
  · obtain ⟨r, -, rfl⟩ := Option.map_eq_some_iff.1 h
    rfl
  · cases h

theorem wordSplices_cons (table : String → Option String) (afterDot : Bool) (t : Token)
    (ts : List Token) :
    wordSplices table afterDot (t :: ts) =
      (wordSplice? table afterDot t).toList ++
        wordSplices table (t.kind == .symbol && t.text == ".") ts := by
  simp only [wordSplices, wordSplice?]
  split
  · cases table t.text <;> rfl
  · rfl

/-- A token's text after renaming is the replacement of its splice, if it has one. -/
theorem renamed_text_eq (table : String → Option String) (afterDot : Bool) (t : Token) :
    (if t.kind == .word && !afterDot then (table t.text).getD t.text else t.text) =
      ((wordSplice? table afterDot t).map (·.replacement)).getD t.text := by
  simp only [wordSplice?]
  split
  · cases table t.text <;> rfl
  · rfl

/-- Renaming splices sit on the spans of tokens, in the tokens' order. -/
theorem wordSplices_spans (table : String → Option String) :
    ∀ (afterDot : Bool) (ts : List Token),
      ((wordSplices table afterDot ts).map (·.span)).Sublist (ts.map (·.span))
  | _, [] => .slnil
  | afterDot, t :: ts => by
    rw [wordSplices_cons, List.map_append, List.map_cons]
    have hrest := wordSplices_spans table (t.kind == .symbol && t.text == ".") ts
    cases h : wordSplice? table afterDot t with
    | none => exact hrest.cons _
    | some s => simpa [wordSplice?_span h] using hrest.cons_cons t.span

/-! ### The renamed text -/

/-- Splicing the renaming splices of the listed tokens of a tiling into the whole text gives the
tiling's renamed texts, after the text copied up to where the tiling starts. The text is cut as
`x ++ g ++ cs ++ suf`: the copy starts after `x`, and the tiling covers `cs`. -/
theorem apply_wordSplices (table : String → Option String) {pos : Nat} {cs : List Char}
    {all : List Token} (h : Lexes pos cs all) :
    ∀ (afterDot : Bool) (x g suf : List Char), Text.byteSize (x ++ g) = pos →
      Splice.apply (String.ofList (x ++ g ++ cs ++ suf))
          (wordSplices table afterDot (all.filter fun t => !TokenSet.code.ignores t.kind))
          (Text.byteSize x) (pos + Text.byteSize cs) =
        String.ofList g ++ String.join (renamedTexts table afterDot all) := by
  induction h with
  | @nil pos =>
    intro afterDot x g suf hpos
    rw [Text.byteSize_append] at hpos
    subst hpos
    have hslice := Text.slice?_middle x g suf
    rw [List.append_assoc] at hslice
    simp [wordSplices, renamedTexts, Splice.apply, Text.sliceString?, hslice]
  | @cons pos lexeme rest t ts hne _ htext hspan _ ih =>
    intro afterDot x g suf hpos
    have hsize : pos + Text.byteSize (lexeme ++ rest) =
        pos + Text.byteSize lexeme + Text.byteSize rest := by
      rw [Text.byteSize_append, Nat.add_assoc]
    have hcut : x ++ g ++ (lexeme ++ rest) ++ suf = x ++ (g ++ lexeme) ++ rest ++ suf := by simp
    -- a token that keeps its text joins the text copied before it
    have hkeep : ∀ d, Splice.apply (String.ofList (x ++ g ++ (lexeme ++ rest) ++ suf))
        (wordSplices table d (ts.filter fun t => !TokenSet.code.ignores t.kind))
        (Text.byteSize x) (pos + Text.byteSize (lexeme ++ rest)) =
        String.ofList g ++ (t.text ++ String.join (renamedTexts table d ts)) := by
      intro d
      have hpos' : Text.byteSize (x ++ (g ++ lexeme)) = pos + Text.byteSize lexeme := by
        rw [← List.append_assoc, Text.byteSize_append, hpos]
      rw [hsize, hcut, ih d x (g ++ lexeme) suf hpos', htext, String.ofList_append,
        String.append_assoc]
    cases hig : TokenSet.code.ignores t.kind
    case true =>
      simp only [List.filter_cons, hig, renamedTexts, Bool.not_true, Bool.false_eq_true, if_false,
        if_true, String.join_cons]
      exact hkeep afterDot
    case false =>
    simp only [List.filter_cons, hig, renamedTexts, wordSplices_cons, Bool.not_false, if_true,
      Bool.false_eq_true, if_false, renamed_text_eq, String.join_cons]
    cases hs : wordSplice? table afterDot t with
    | none => exact hkeep _
    | some s =>
      -- a renamed word: the text copied before it, its new name, then the rest after it
      have hx : Text.byteSize (x ++ g ++ lexeme) = pos + Text.byteSize lexeme := by
        rw [Text.byteSize_append, hpos]
      have hrest := ih (t.kind == .symbol && t.text == ".") (x ++ g ++ lexeme) [] suf
        (by rw [List.append_nil, hx])
      rw [List.append_nil, hx, String.ofList_nil, String.empty_append] at hrest
      have hgap : Text.sliceString? (String.ofList (x ++ g ++ (lexeme ++ rest) ++ suf))
          ⟨Text.byteSize x, pos⟩ = some (String.ofList g) := by
        rw [Text.sliceString?, String.toList_ofList, ← hpos, Text.byteSize_append,
          show x ++ g ++ (lexeme ++ rest) ++ suf = x ++ g ++ (lexeme ++ rest ++ suf) by simp,
          Text.slice?_middle]
        rfl
      have hcut' : x ++ g ++ (lexeme ++ rest) ++ suf = x ++ g ++ lexeme ++ rest ++ suf := by simp
      simp only [Option.toList, List.singleton_append, Option.map_some, Option.getD_some,
        Splice.apply, wordSplice?_span hs, hspan, hgap, Option.getD_some, hsize]
      rw [hcut', hrest, String.append_assoc]

/-! ### Splicing the renamed words -/

open Splice in
/-- Splices on non-empty slices of a text that ascend, each ending before the next starts,
splice into the whole text without a fault: none is dropped or reordered, the spliced text is
the text with them applied, and the map points into the text and passes the coverage check. -/
theorem splice_of_ascending {text id : String} {ss : List Splice}
    (hs : ∀ s ∈ ss, s.span.start < s.span.stop ∧
      s.span.Within text.toList 0 text.utf8ByteSize)
    (hasc : ss.Pairwise fun s t => s.span.stop ≤ t.span.start) :
    ∃ m, splice text id ss none = .ok m ∧ m.id = splicedId id ∧ m.checkCoverage = none ∧
      (∀ e ∈ m.entries, e.src = id) ∧ m.dest = apply text ss 0 text.utf8ByteSize := by
  have hkept : keptIn (range text none) ss = ss :=
    List.filter_eq_self.2 fun s hmem => by
      simp [Span.contains, range, (hs s hmem).2.stop_le]
  -- ascending spans are already in `(start, stop)` order
  have hordered : ordered (range text none) ss = ss := by
    rw [ordered, hkept]
    refine List.Pairwise.insertionSort_eq (hasc.imp_of_mem fun {s t} hsm _ hst => ?_)
    have := (hs s hsm).1
    rw [Span.le_iff]
    omega
  have hstarts : StartsAfter 0 ss :=
    startsAfter_of_pairwise (hordered ▸ ordered_pairwise _ _)
      (hasc.imp_of_mem fun {s t} hsm _ hst => apart_of_stop_le_start (hs s hsm).2.start_le hst)
      (fun t _ => Nat.zero_le _)
  have hrun := @splice_eq_ok_walkMap text id ss none (by simp)
    (by rw [hkept]; exact fun s hmem => (hs s hmem).2) (by rw [hordered]; exact hstarts)
  rw [hordered] at hrun
  have htiled := @walkMap_tiled text id (range text none) ss
  refine ⟨_, hrun, rfl, SourceMap.checkCoverage_of_tiles htiled.compact, fun x hx => ?_, rfl⟩
  obtain ⟨f, hf, hsrc⟩ := htiled.compact_src hx
  rw [← hsrc]
  exact walkMap_src _ _ hf

/-- The whole of a text, as a slice of it. -/
theorem sliceString?_whole (text : String) :
    Text.sliceString? text ⟨0, text.utf8ByteSize⟩ = some text := by
  have h := Text.slice?_middle [] text.toList []
  simp only [List.nil_append, List.append_nil, Text.byteSize_nil, Nat.zero_add,
    Text.byteSize_toList] at h
  simp [Text.sliceString?, h]

/-- The renaming splices of a text's listed tokens lie on non-empty slices of the text, each
ending before the next starts: they sit on spans of tokens, which ascend through the text. -/
theorem wordSplices_ascending {text : String} {all : List Token} (hall : Lexes 0 text.toList all)
    (table : String → Option String) :
    (∀ s ∈ wordSplices table false (all.filter fun t => !TokenSet.code.ignores t.kind),
      s.span.start < s.span.stop ∧ s.span.Within text.toList 0 text.utf8ByteSize) ∧
    (wordSplices table false (all.filter fun t => !TokenSet.code.ignores t.kind)).Pairwise
      fun s t => s.span.stop ≤ t.span.start := by
  obtain ⟨hpairwise, hspans⟩ := hall.spans
  have hsub := (wordSplices_spans table false
    (all.filter fun t => !TokenSet.code.ignores t.kind)).trans (List.filter_sublist.map _)
  refine ⟨fun s hmem => ?_, ?_⟩
  · obtain ⟨t, ht, hspan⟩ := List.mem_map.1 (hsub.subset (List.mem_map_of_mem hmem))
    rw [← hspan]
    exact ⟨(hspans t ht).1, (hspans t ht).2.1⟩
  · have hasc : (all.map (·.span)).Pairwise fun a b : Span => a.stop ≤ b.start :=
      List.pairwise_map.2 hpairwise
    exact List.pairwise_map.1 (hasc.sublist hsub)

/-- **Renaming words splices without a fault.** For every text, name and table, renaming
succeeds, with a map named `id#sliced` that points only into the text and passes the coverage
check. When the text reads as tokens, the renamed text is the tiling of the text with each word
that `table` renames, and that does not follow a `.`, replaced by its new name, and every other
token, blanks and comments included, kept as it is: words inside comments, number suffixes and
member names are never renamed, and all other bytes stay. When the text does not read as
tokens, it is returned unchanged. -/
theorem renameWords_replaces_words (text id : String) (table : String → Option String) :
    ∃ m, renameWords text id table = .ok m ∧ m.id = splicedId id ∧ m.checkCoverage = none ∧
      (∀ e ∈ m.entries, e.src = id) ∧
      (∀ r, tokenize text = .error r → m.dest = text) ∧
      ∀ toks, tokenize text = .ok toks → ∃ all, Lexes 0 text.toList all ∧
        toks = all.filter (fun t => !TokenSet.code.ignores t.kind) ∧
        m.dest = String.join (renamedTexts table false all) := by
  cases htok : tokenize text with
  | error r =>
    obtain ⟨m, hm, hid, hcov, hsrc, hdest⟩ :=
      @splice_of_ascending text id [] (by simp) List.Pairwise.nil
    refine ⟨m, by simpa [renameWords, htok, wordSplices] using hm, hid, hcov, hsrc,
      fun _ _ => ?_, fun _ h => by cases h⟩
    rw [hdest, Splice.apply, sliceString?_whole, Option.getD_some]
  | ok toks =>
    obtain ⟨all, hall, rfl⟩ := tokenize_lexes htok
    obtain ⟨hs, hasc⟩ := wordSplices_ascending hall table
    obtain ⟨m, hm, hid, hcov, hsrc, hdest⟩ := @splice_of_ascending text id _ hs hasc
    refine ⟨m, by simpa [renameWords, htok] using hm, hid, hcov, hsrc, fun _ h => (by cases h),
      fun toks h => ?_⟩
    cases h
    refine ⟨all, hall, rfl, ?_⟩
    have happly := apply_wordSplices table hall false [] [] [] rfl
    simp only [List.nil_append, List.append_nil, String.ofList_toList, Text.byteSize_nil,
      Nat.zero_add, Text.byteSize_toList, String.ofList_nil, String.empty_append] at happly
    rw [hdest, happly]

end ShaderLink
