import ShaderLink.Proofs.Module.ImportDialects
import ShaderLink.Proofs.Module.Layout

/-!
# The path a module line declares

A module names itself on a line `module P;`. The grammar reads `P` as a module path: its
relative markers become segments `.` and `..`, and a last segment `wgsl` or `wesl` after another
one is a file extension and is dropped (`PathText.declared`). The registry also scans that line
without parsing it (`ModulePath.declaredIn?`), so that a module that fails to parse is still
filed under the name it gives itself; the scan keeps the words between the separators, and
nothing else.

For every written path `P` whose words the scan accepts, the text `module P;` is a module with
the path `P.declared`, and the scan finds the words of `P` (`scannedPath_eq_parsedPath_iff`).
The two agree exactly when `P` has no markers and drops no extension: `module util.wgsl;` is the
module `util` to the parser and `util/wgsl` to the scan (`utilWgsl_paths_differ`).

## What each result rests on

* The characters: a word has no blank and no separator (`Text.isWord_char`), and every
  character of a written path is a separator or a character of one of its words
  (`PathText.mem_spelling`).
* The scan: the line is the text's only line (`Text.lines_single`), the trims leave the path
  alone, and splitting it at its separators gives back its words (`PathText.parse_spelling`).
* The grammar: the line is read as one module-line item (`Grammar.parses_globalItem_module`),
  and the text, having no conditional directive, is that item alone
  (`parseModule_single`).
-/

namespace ShaderLink

open ShaderLink.Parser

/-! ### The characters of a written path -/

namespace Text

theorem identContinueRanges_apart :
    ∀ r ∈ identContinueRanges.toList, ∀ b ∈ wideBlanks, r.2 < b.1 ∨ b.2 < r.1 := by
  decide +kernel

theorem isIdentContinue_isBlank {c : Char} (h : isIdentContinue c = true) : isBlank c = false := by
  cases hb : isBlank c
  · rfl
  unfold isIdentContinue at h
  split at h
  · -- an ASCII letter, digit or underscore
    change (c.isAlpha || c.isDigit || c == '_') = true at h
    simp only [isBlank, Bool.or_eq_true, Bool.and_eq_true, decide_eq_true_eq, beq_iff_eq] at hb
    simp only [Bool.or_eq_true, beq_iff_eq] at h
    rcases h with (h | h) | rfl
    · have := isAlpha_toNat h
      omega
    · -- the library's digits are the lexer's
      have := isDigit_toNat (c := c) h
      omega
    · exact absurd hb (by decide)
  · -- outside ASCII, no range of the table meets a blank
    obtain ⟨b, hb, h₁, h₂⟩ := wideBlanks_of_isBlank hb (by omega)
    have := @inRanges_eq_false identContinueRanges c.toNat fun r hr => by
      have := identContinueRanges_apart r hr b hb
      omega
    simp_all

theorem isSeparator_eq_false {c : Char} (h : isIdentContinue c = true ∨ startsTree c = true) :
    ModulePath.isSeparator c = false := by
  cases hs : ModulePath.isSeparator c
  · rfl
  simp only [ModulePath.isSeparator, Bool.or_eq_true, beq_iff_eq] at hs
  rcases hs with ((rfl | rfl) | rfl) | rfl <;> exact absurd h (by decide)

/-- No character of a word is a blank or a separator of a written path. -/
theorem isWord_char {w : List Char} (hw : isWord w = true) {c : Char} (hc : c ∈ w) :
    isBlank c = false ∧ ModulePath.isSeparator c = false := by
  obtain ⟨x, xs, rfl, hx⟩ := isWord_cons hw
  rcases List.mem_cons.1 hc with rfl | hc
  · exact ⟨(startsTree_plain hx).1, isSeparator_eq_false (.inr hx)⟩
  · have hcont := List.all_eq_true.1 (isWord_tail hw) c hc
    exact ⟨isIdentContinue_isBlank hcont, isSeparator_eq_false (.inl hcont)⟩

end Text

namespace PathText

/-- The words of a module path, without its markers. -/
def words (p : PathText) : List String := p.first :: p.rest.map (·.2)

theorem segments_eq (p : PathText) : p.segments = p.markers.map PathMarker.segment ++ p.words :=
  rfl

theorem mem_markersSpelling {ms : List PathMarker} {c : Char}
    (h : c ∈ (markersSpelling ms).toList) : c = '.' ∨ c = '/' := by
  simp only [markersSpelling, String.toList_join, List.mem_flatMap, List.mem_map] at h
  obtain ⟨_, ⟨m, -, rfl⟩, h⟩ := h
  cases m <;> simp [PathMarker.spelling] at h <;> omega

/-- Every character of a written module path is a separator, or a character of one of its
words. -/
theorem mem_spelling {p : PathText} {c : Char} (h : c ∈ p.spelling.toList) :
    c = '.' ∨ c = '/' ∨ c = ':' ∨ ∃ w ∈ p.words, c ∈ w.toList := by
  simp only [spelling, restSpelling, String.toList_append, List.mem_append, String.toList_join,
    List.mem_flatMap, List.mem_map] at h
  rcases h with (h | h) | ⟨_, ⟨⟨s, w⟩, hw, rfl⟩, h⟩
  · rcases mem_markersSpelling h with h | h <;> simp [h]
  · exact .inr (.inr (.inr ⟨p.first, List.mem_cons_self, h⟩))
  · simp only [String.toList_append, List.mem_append] at h
    rcases h with h | h
    · cases s <;> simp [PathSeparator.spelling] at h <;> simp [h]
    · exact .inr (.inr (.inr ⟨w, List.mem_cons_of_mem _ (List.mem_map.2 ⟨(s, w), hw, rfl⟩), h⟩))

end PathText

/-! ### Splitting a written path at its separators -/

namespace Text

variable {p : Char → Bool}

theorem fields_cons_of_sep {c : Char} (hc : p c = true) (cs : List Char) :
    fields p (c :: cs) = fields p cs := by
  simp [fields, List.splitOnP_cons_eq_if_modifyHead, hc]

theorem fields_append_of_sep {s : List Char} (hs : ∀ c ∈ s, p c = true) (cs : List Char) :
    fields p (s ++ cs) = fields p cs := by
  induction s with
  | nil => rfl
  | cons c s ih =>
    rw [List.cons_append, fields_cons_of_sep (hs c List.mem_cons_self)]
    exact ih fun x hx => hs x (List.mem_cons_of_mem _ hx)

/-- A field of characters that are no separators, up to a separator or the end, is the first
field. -/
theorem fields_field_append {w more : List Char} (hw : w ≠ []) (hno : ∀ c ∈ w, p c = false)
    (hmore : ∀ c ∈ more.head?, p c = true) : fields p (w ++ more) = w :: fields p more := by
  cases more with
  | nil =>
    simp [fields, List.splitOnP_eq_singleton hno, hw]
  | cons c more =>
    have hc : p c = true := hmore c rfl
    rw [fields_cons_of_sep hc]
    simp [fields, List.splitOnP_append_cons_of_forall_mem hno c hc, hw]

end Text

namespace PathText

theorem fields_markersSpelling (ms : List PathMarker) (cs : List Char) :
    Text.fields ModulePath.isSeparator ((markersSpelling ms).toList ++ cs) =
      Text.fields ModulePath.isSeparator cs := by
  refine Text.fields_append_of_sep (fun c hc => ?_) cs
  rcases mem_markersSpelling hc with rfl | rfl <;> rfl

/-- The words after the first, each after its separator, split at the separators. -/
theorem fields_restSpelling {first : String} (hfirst : Text.isWord first.toList = true) :
    ∀ rest : List (PathSeparator × String), rest.all (Text.isWord ·.2.toList) = true →
      Text.fields ModulePath.isSeparator (first.toList ++ (restSpelling rest).toList) =
        first.toList :: rest.map (·.2.toList)
  | [], _ => by
    obtain ⟨x, xs, hxs, -⟩ := Text.isWord_cons hfirst
    have h : Text.fields ModulePath.isSeparator (first.toList ++ []) =
        first.toList :: Text.fields ModulePath.isSeparator [] :=
      Text.fields_field_append (by simp [hxs]) (fun c hc => (Text.isWord_char hfirst hc).2)
        (by simp)
    simpa [restSpelling, Text.fields] using h
  | (s, w) :: rest, hrest => by
    simp only [List.all_cons, Bool.and_eq_true] at hrest
    obtain ⟨x, xs, hxs, -⟩ := Text.isWord_cons hfirst
    have hsep : ∀ c ∈ s.spelling.toList, ModulePath.isSeparator c = true := by
      intro c hc
      cases s <;> simp [PathSeparator.spelling] at hc <;> subst hc <;> rfl
    have hhead : ∀ c ∈ (s.spelling.toList ++ (w.toList ++ (restSpelling rest).toList)).head?,
        ModulePath.isSeparator c = true := by
      cases s <;> simp [PathSeparator.spelling] <;> decide
    rw [Grammar.restSpelling_cons, Text.fields_field_append (by simp [hxs])
      (fun c hc => (Text.isWord_char hfirst hc).2) hhead, Text.fields_append_of_sep hsep,
      fields_restSpelling hrest.1 rest hrest.2]
    rfl

/-- A written module path, split at its separators, is its words: the markers, made of
separators only, leave nothing. -/
theorem parse_spelling {p : PathText} (hp : p.wellFormed = true) :
    ModulePath.parse p.spelling = ⟨p.words⟩ := by
  simp only [wellFormed, Bool.and_eq_true] at hp
  have hfields : Text.fields ModulePath.isSeparator p.spelling.toList =
      p.first.toList :: p.rest.map (·.2.toList) := by
    rw [spelling, String.toList_append, String.toList_append, List.append_assoc,
      fields_markersSpelling]
    exact fields_restSpelling hp.1 p.rest hp.2
  simp [ModulePath.parse, hfields, words]

end PathText

/-! ### Scanning the line -/

namespace Text

theorem dropWhile_eq_self {p : Char → Bool} {cs : List Char} (h : ∀ c ∈ cs.head?, p c = false) :
    cs.dropWhile p = cs := by
  cases cs with
  | nil => rfl
  | cons c cs => exact List.dropWhile_cons_of_neg (by simp [h c rfl])

theorem trimStart_eq_self {cs : List Char} (h : ∀ c ∈ cs.head?, isBlank c = false) :
    trimStart cs = cs :=
  dropWhile_eq_self h

theorem trimEnd_eq_self {cs : List Char} (h : ∀ c ∈ cs.getLast?, isBlank c = false) :
    trimEnd cs = cs := by
  rw [trimEnd, dropWhile_eq_self (by rwa [List.head?_reverse]), List.reverse_reverse]

theorem trimEnd_append_singleton (cs : List Char) {c : Char} (hc : isBlank c = false) :
    trimEnd (cs ++ [c]) = cs ++ [c] :=
  trimEnd_eq_self (by simpa using hc)

/-- A text of one line and its break has that one line. -/
theorem lines_single {line : List Char} (hnl : '\n' ∉ line) (hr : line.getLast? ≠ some '\r') :
    lines (line ++ ['\n']) = [line] := by
  have hsplit : (line ++ ['\n']).splitOn '\n' = [line, []] :=
    List.splitOnP_append_cons_of_forall_mem (fun x hx => by
      simp only [beq_eq_false_iff_ne]
      rintro rfl
      exact hnl hx) '\n' (by simp) []
  have hdrop : dropReturn line = line := by
    unfold dropReturn
    split
    · next h => exact absurd h hr
    · rfl
  simp [lines, hsplit, hdrop]

end Text

namespace ModulePath

theorem isDeclaredPathChar_ne_semicolon {c : Char} (h : isDeclaredPathChar c = true) : c ≠ ';' := by
  rintro rfl
  exact absurd h (by decide)

/-- The path of a `module` line, between the blank after the keyword and the semicolon: the
trims and the dropped semicolon leave a path of no blanks and no semicolons as it is. -/
theorem declarationPath_eq {path : List Char} (hne : path ≠ [])
    (hchars : ∀ c ∈ path, Text.isBlank c = false ∧ isDeclaredPathChar c = true) :
    Text.trimEnd (List.dropWhile (· == ';') (Text.trim (' ' :: (path ++ [';']))).reverse).reverse =
      path := by
  obtain ⟨x, xs, rfl⟩ := List.exists_cons_of_ne_nil hne
  have htrim : Text.trim (' ' :: (x :: xs ++ [';'])) = x :: xs ++ [';'] := by
    rw [Text.trim, Text.trimStart, List.dropWhile_cons_of_pos (by decide),
      ← Text.trimStart, Text.trimStart_eq_self (by simpa using (hchars x List.mem_cons_self).1),
      Text.trimEnd_append_singleton _ (by decide)]
  have hsemi : ∀ c ∈ (x :: xs).reverse.head?, (c == ';') = false := by
    intro c hc
    rw [List.head?_reverse] at hc
    simpa using isDeclaredPathChar_ne_semicolon (hchars c (List.mem_of_getLast? hc)).2
  rw [htrim, List.reverse_append, List.reverse_singleton, List.singleton_append,
    List.dropWhile_cons_of_pos (by decide), Text.dropWhile_eq_self hsemi, List.reverse_reverse]
  exact Text.trimEnd_eq_self fun c hc => (hchars c (List.mem_of_getLast? hc)).1

/-- A `module` line with a path of characters that are no blanks and that the scan accepts
declares that path, read as a written path. -/
theorem ofDeclarationLine?_module {path : List Char} (hne : path ≠ [])
    (hchars : ∀ c ∈ path, Text.isBlank c = false ∧ isDeclaredPathChar c = true) :
    ofDeclarationLine? ("module".toList ++ ' ' :: (path ++ [';'])) =
      some (parse (String.ofList path)) := by
  have hline : Text.trim ("module".toList ++ ' ' :: (path ++ [';'])) =
      "module".toList ++ ' ' :: (path ++ [';']) := by
    have : "module".toList ++ ' ' :: (path ++ [';']) = ("module".toList ++ ' ' :: path) ++ [';'] :=
      by simp
    rw [this, Text.trim, Text.trimStart_eq_self (by simp; decide),
      Text.trimEnd_append_singleton _ (by decide)]
  have hhash : Text.stripPrefix? "#module".toList ("module".toList ++ ' ' :: (path ++ [';'])) =
      none := by
    simp [Text.stripPrefix?]
  have hmodule : Text.stripPrefix? "module".toList ("module".toList ++ ' ' :: (path ++ [';'])) =
      some (' ' :: (path ++ [';'])) := by
    simp [Text.stripPrefix?]
  unfold ofDeclarationLine?
  dsimp only
  have hcond : (Text.isBlank ' ' && !path.isEmpty && path.all isDeclaredPathChar) = true := by
    simp only [Bool.and_eq_true, Bool.not_eq_true', List.isEmpty_eq_false_iff, List.all_eq_true]
    exact ⟨⟨by decide, hne⟩, fun c hc => (hchars c hc).2⟩
  have hor : (none <|> some (' ' :: (path ++ [';']))) = some (' ' :: (path ++ [';'])) := rfl
  rw [hline, hhash, hmodule]
  simp only [Option.bind_eq_bind, hor, Option.bind_some, declarationPath_eq hne hchars]
  exact if_pos hcond

end ModulePath

namespace PathText

theorem isWord_of_mem_words {p : PathText} (hp : p.wellFormed = true) {w : String}
    (hw : w ∈ p.words) : Text.isWord w.toList = true := by
  simp only [wellFormed, Bool.and_eq_true, List.all_eq_true] at hp
  simp only [words, List.mem_cons, List.mem_map] at hw
  rcases hw with rfl | ⟨s, hs, rfl⟩
  · exact hp.1
  · exact hp.2 s hs

/-- Every character of a written path whose words the scan accepts is no blank, and one that
the scan accepts. -/
theorem spelling_char {p : PathText} (hp : p.wellFormed = true)
    (hwords : p.words.all (·.toList.all ModulePath.isDeclaredPathChar) = true) {c : Char}
    (hc : c ∈ p.spelling.toList) :
    Text.isBlank c = false ∧ ModulePath.isDeclaredPathChar c = true := by
  rcases mem_spelling hc with rfl | rfl | rfl | ⟨w, hw, hcw⟩
  · decide
  · decide
  · decide
  · exact ⟨(Text.isWord_char (isWord_of_mem_words hp hw) hcw).1,
      List.all_eq_true.1 (List.all_eq_true.1 hwords w hw) c hcw⟩

theorem spelling_ne_nil {p : PathText} (hp : p.wellFormed = true) : p.spelling.toList ≠ [] := by
  obtain ⟨x, xs, hxs, -⟩ := Text.isWord_cons (isWord_of_mem_words hp List.mem_cons_self)
  simp [spelling, hxs]

end PathText

/-- The scan of the text `module P;` finds the words of `P`. -/
theorem declaredIn?_moduleLine {p : PathText} (hp : p.wellFormed = true)
    (hwords : p.words.all (·.toList.all ModulePath.isDeclaredPathChar) = true) :
    ModulePath.declaredIn? ("module " ++ p.spelling ++ ";\n") = some ⟨p.words⟩ := by
  have htext : ("module " ++ p.spelling ++ ";\n").toList =
      ("module".toList ++ ' ' :: (p.spelling.toList ++ [';'])) ++ ['\n'] := by
    simp
  have hnl : '\n' ∉ "module".toList ++ ' ' :: (p.spelling.toList ++ [';']) := by
    simp [PathText.newline_not_mem hp]
  have hr : ("module".toList ++ ' ' :: (p.spelling.toList ++ [';'])).getLast? ≠ some '\r' := by
    rw [← List.cons_append, ← List.append_assoc, List.getLast?_concat]
    decide
  unfold ModulePath.declaredIn?
  rw [htext, Text.lines_single hnl hr, List.findSome?_cons,
    ModulePath.ofDeclarationLine?_module (PathText.spelling_ne_nil hp)
      fun c hc => PathText.spelling_char hp hwords hc]
  simp [PathText.parse_spelling hp]

/-! ### Parsing the line -/

namespace Grammar

variable {c : Cursor} {more : List Char}

/-- `module P;` and a line break are a module line of the segments that `P` declares. -/
theorem parses_moduleLine {p : PathText} (hp : p.wellFormed = true)
    (hc : c.rest = ("module " ++ p.spelling ++ ";\n").toList ++ more) (hset : c.set = .code) :
    ∃ span, Parses moduleLine c (.moduleLine p.declared span) more := by
  have hc' : c.rest = "module".toList ++ ' ' :: (p.spelling.toList ++ ';' :: '\n' :: more) := by
    rw [hc]
    simp
  obtain ⟨hscan, ha⟩ := keyword_start (by decide) hc' hset
  unfold moduleLine
  refine Parses.spanned_bind (a := p.declared) (m := more) (parses_skipIgnored_first hscan rfl)
    (fun c₁ hr₁ hs₁ => ?_) fun span c₂ hr₂ _ => ?_
  · obtain ⟨tok, htext⟩ := (ha.at hr₁ hs₁).parses_text (s := "module") rfl
    refine htext.orElse.bind fun c₂ hr₂ hs₂ => Parses.withSet ?_
    -- the path ends at the semicolon, which no separator starts
    have hend : AheadNone (';' :: '\n' :: more) ["/", "::", "."] :=
      ⟨_, _, _, ahead_plainSymbol (c := ';') (by decide) _, by decide⟩
    refine (parses_modulePath hp (by decide) hend (by decide : Text.Spaces [' '])
      (c := { c₂ with set := .line }) hr₂ rfl).commit.bind fun c₃ hr₃ hs₃ => ?_
    exact (parses_lineEnd_semicolon hr₃ hs₃).commit.bind fun c₄ hr₄ _ => hr₄ ▸ parses_pure _ _
  · exact hr₂ ▸ parses_pure _ _

/-- `module P;` and a line break are read as an item where they stand: a module line comes
first among the items. -/
theorem parses_globalItem_module {p : PathText} {fuel : Nat} (hp : p.wellFormed = true)
    (hc : c.rest = ("module " ++ p.spelling ++ ";\n").toList ++ more) (hset : c.set = .code) :
    ∃ span, Parses (globalItem fuel) c (some (.moduleLine p.declared span)) more := by
  obtain ⟨span, h⟩ := parses_moduleLine hp hc hset
  unfold globalItem
  exact ⟨span, h.map.orElse⟩

end Grammar

/-- The module line has no conditional directive line. -/
theorem moduleText_directiveFree {p : PathText} (hp : p.wellFormed = true) :
    ∀ l ∈ Text.linesWithBreaks ("module " ++ p.spelling ++ ";\n").toList,
      LineDirective.read? l = none := by
  have htext : ("module " ++ p.spelling ++ ";\n").toList =
      ("module ".toList ++ (p.spelling.toList ++ ";".toList)) ++ ['\n'] := by
    simp
  have hfirst : Text.Begins "module ".toList :=
    ⟨['m'], "odule ".toList, rfl, by decide,
      LineDirective.settles_plain (by decide : Text.Spaces []) (by decide) (by decide) (by decide)⟩
  rw [htext]
  exact Text.read?_linesWithBreaks (hfirst.append _)
    ((Text.LinesBegin.of_not_mem (by decide)).append
      ((Text.LinesBegin.of_not_mem (PathText.newline_not_mem hp)).append
        (Text.LinesBegin.of_not_mem (by decide))))

/-- A module of one module line has the path of that line. -/
theorem Assembly.build_moduleItem (path : List String) (span : Span)
    (notes : Array (Span × String)) :
    (Assembly.build [.moduleLine path span] notes).1.path = some path := by
  simp [Assembly.build, Assembly.declareAll, Assembly.exportsAllOf, Assembly.addItem]

/-- The text `module P;` is a module with the path that `P` declares, with any budget from
some point on. -/
theorem parseModule_moduleLine (conds : Conditions) (file : String) {p : PathText}
    (hp : p.wellFormed = true) :
    ∃ n, ∀ budget, n ≤ budget → ∃ m,
      parseModule ("module " ++ p.spelling ++ ";\n") file ⟨conds, budget⟩ = .ok m ∧
        m.path = ⟨p.declared⟩ := by
  have hitem : ∃ span, Parses (Grammar.globalItem (grammarFuel ("module " ++ p.spelling ++ ";\n")))
      (Cursor.start _) (some (.moduleLine p.declared span)) [] :=
    Grammar.parses_globalItem_module hp (List.append_nil _).symm rfl
  obtain ⟨span, hitem⟩ := hitem
  obtain ⟨n, hrun⟩ := @parseModule_single _ file conds _ (moduleText_directiveFree hp)
    (Grammar.parses_topLevel_single hitem)
  refine ⟨n, fun budget hb => ?_⟩
  obtain ⟨m, notes, hm, -, hpath⟩ := hrun budget hb
  refine ⟨m, hm, ?_⟩
  rw [hpath, Assembly.build_moduleItem]
  rfl

/-! ### The two paths -/

namespace PathText

/-- Dropping an extension keeps the first segment, there being another after it. -/
theorem head?_declared (p : PathText) : p.declared.head? = p.segments.head? := by
  unfold declared
  split
  · next h =>
    simp only [Bool.and_eq_true, decide_eq_true_eq] at h
    match hs : p.segments, h.1 with
    | a :: b :: t, _ => simp [List.dropLast]
  · rfl

/-- The words of a path are the segments it declares exactly when it has no markers and drops
no extension. -/
theorem words_eq_declared_iff {p : PathText} (hp : p.wellFormed = true) :
    p.words = p.declared ↔ p.markers = [] ∧ p.declared = p.segments := by
  constructor
  · intro h
    cases hm : p.markers with
    | nil =>
      have hseg : p.segments = p.words := by rw [segments_eq, hm]; rfl
      exact ⟨rfl, by rw [← h, hseg]⟩
    | cons m ms =>
      -- the declared segments would start with the marker's, which is no word
      exfalso
      have hhead := congrArg List.head? h
      rw [head?_declared, segments_eq, hm] at hhead
      have hfirst : p.first = m.segment := by simpa [words] using hhead
      have hword := isWord_of_mem_words hp (List.mem_cons_self (a := p.first))
      rw [hfirst] at hword
      cases m <;> exact absurd hword (by decide)
  · rintro ⟨hm, hd⟩
    rw [hd, segments_eq, hm]
    rfl

end PathText

/-- **The scanned path and the parsed path of a module line.** For every written module path `P`
whose words have only characters that the scan accepts, the text `module P;` is, with any budget
from some point on, a module whose path is the segments `P` declares; the scan of the text finds
the words of `P`; and the scan finds the module's path exactly when `P` has no relative markers
and drops no file extension. -/
theorem scannedPath_eq_parsedPath_iff (conds : Conditions) (file : String) (p : PathText)
    (hp : p.wellFormed = true)
    (hwords : p.words.all (·.toList.all ModulePath.isDeclaredPathChar) = true) :
    ∃ n, ∀ budget, n ≤ budget → ∃ m,
      parseModule ("module " ++ p.spelling ++ ";\n") file ⟨conds, budget⟩ = .ok m ∧
      m.path = ⟨p.declared⟩ ∧
      ModulePath.declaredIn? ("module " ++ p.spelling ++ ";\n") = some ⟨p.words⟩ ∧
      (ModulePath.declaredIn? ("module " ++ p.spelling ++ ";\n") = some m.path ↔
        p.markers = [] ∧ p.declared = p.segments) := by
  obtain ⟨n, hparse⟩ := parseModule_moduleLine conds file hp
  refine ⟨n, fun budget hb => ?_⟩
  obtain ⟨m, hm, hpath⟩ := hparse budget hb
  have hscan := declaredIn?_moduleLine hp hwords
  refine ⟨m, hm, hpath, hscan, ?_⟩
  rw [hscan, hpath, Option.some.injEq, ModulePath.mk.injEq]
  exact PathText.words_eq_declared_iff hp

/-- The paths of `module ../lib::util.wgsl;`: the grammar reads the module `..`, `lib`, `util`,
and the scan the path `lib`, `util`, `wgsl`. -/
theorem scannedPath_upLibUtilWgsl :
    let p : PathText := ⟨[.up], "lib", [(.colons, "util"), (.dot, "wgsl")]⟩
    p.wellFormed = true ∧ p.words.all (·.toList.all ModulePath.isDeclaredPathChar) = true ∧
      ∃ n, ∀ budget, n ≤ budget → ∃ m,
        parseModule ("module " ++ p.spelling ++ ";\n") "lib.wesl" ⟨⟨[]⟩, budget⟩ = .ok m ∧
        m.path = ⟨p.declared⟩ ∧
        ModulePath.declaredIn? ("module " ++ p.spelling ++ ";\n") = some ⟨p.words⟩ ∧
        (ModulePath.declaredIn? ("module " ++ p.spelling ++ ";\n") = some m.path ↔
          p.markers = [] ∧ p.declared = p.segments) := by
  intro p
  exact ⟨by decide, by decide,
    scannedPath_eq_parsedPath_iff ⟨[]⟩ "lib.wesl" p (by decide) (by decide)⟩

/-- `module util.wgsl;` is the module `util` to the grammar, and declares `util/wgsl` to the
scan. -/
theorem utilWgsl_paths_differ :
    (parseModule "module util.wgsl;\n" "lib.wgsl" ⟨⟨[]⟩, defaultBudget⟩).toOption.map (·.path) =
      some ⟨["util"]⟩ ∧
    ModulePath.declaredIn? "module util.wgsl;\n" = some ⟨["util", "wgsl"]⟩ := by
  decide +kernel

end ShaderLink
