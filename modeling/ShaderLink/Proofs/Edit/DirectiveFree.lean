import ShaderLink.Proofs.Edit.ConditionalBlocks
import ShaderLink.Proofs.Token.Lexemes

/-!
# Text without conditional directives

A text none of whose lines is an `#if`, `#else` or `#endif` line passes the conditions
unchanged and with no warnings (`applyConditions_of_directiveFree`).

Whether a line is such a directive is settled by how it starts (`LineDirective.Settles`): after
spaces, a character that is no blank, no `#` and no `/` (`settles_plain`), or the word
`#import` and a space (`settles_import`), settle it whatever follows. A text whose first line
and every line after a line break start so (`Text.Begins`, `Text.LinesBegin`) is free of
directives, since the line filter cuts lines only at line breaks (`read?_linesFrom`).
-/

namespace ShaderLink

namespace Text

theorem trimStart_spaces_append {sp : List Char} (hsp : Spaces sp) (cs : List Char) :
    trimStart (sp ++ cs) = trimStart cs :=
  List.dropWhile_append_of_pos fun c hc => by rw [hsp c hc]; decide

theorem trimStart_cons {x : Char} (hx : isBlank x = false) (cs : List Char) :
    trimStart (x :: cs) = x :: cs :=
  List.dropWhile_cons_of_neg (by simp [hx])

/-- Trimming the end stops at the last character that is no blank. -/
theorem trimEnd_append_cons {x : Char} (hx : isBlank x = false) (a b : List Char) :
    trimEnd (a ++ x :: b) = a ++ x :: trimEnd b := by
  unfold trimEnd
  rw [List.reverse_append, List.reverse_cons, List.append_assoc, List.singleton_append,
    List.dropWhile_append]
  split
  · next h =>
    rw [List.isEmpty_iff.1 h, List.dropWhile_cons_of_neg (by simp [hx])]
    simp
  · simp

/-- What trimming the end leaves is a prefix of the text. -/
theorem trimEnd_prefix (l : List Char) : ∃ r, l = trimEnd l ++ r := by
  refine ⟨(l.reverse.takeWhile isBlank).reverse, ?_⟩
  unfold trimEnd
  rw [← List.reverse_append, List.takeWhile_append_dropWhile, List.reverse_reverse]

end Text

namespace LineDirective

/-- A line that starts with `pre` is no conditional directive, whatever follows. -/
def Settles (pre : List Char) : Prop := ∀ rest, read? (pre ++ rest) = none

theorem Settles.append {pre : List Char} (h : Settles pre) (more : List Char) :
    Settles (pre ++ more) := fun rest => by
  rw [List.append_assoc]
  exact h _

/-- After spaces, a character that is no blank, `#` or `/` starts no directive. -/
theorem settles_plain {sp : List Char} {c : Char} (hsp : Text.Spaces sp)
    (hc : Text.isBlank c = false) (hhash : c ≠ '#') (hslash : c ≠ '/') : Settles (sp ++ [c]) := by
  intro rest
  have htrim : Text.trim (sp ++ [c] ++ rest) = c :: Text.trimEnd rest := by
    simp only [Text.trim, List.append_assoc, List.singleton_append,
      Text.trimStart_spaces_append hsp, Text.trimStart_cons hc]
    simpa using Text.trimEnd_append_cons hc [] rest
  have hstrip : Text.stripPrefix? "//".toList (c :: Text.trimEnd rest) = none := by
    rw [show "//".toList = ['/', '/'] from rfl]
    simp [Text.stripPrefix?, List.isPrefixOf, Ne.symm hslash]
  unfold read?
  simp only [htrim, hstrip, Option.map_none, Option.getD_none]
  split
  · next h => exact absurd (List.cons.inj h).1 hhash
  · rfl

/-- An `#import` line, after spaces, is no conditional directive. -/
theorem settles_import {sp : List Char} (hsp : Text.Spaces sp) :
    Settles (sp ++ "#import ".toList) := by
  intro rest
  have htrim : Text.trim (sp ++ "#import ".toList ++ rest) =
      '#' :: ("import".toList ++ Text.trimEnd (' ' :: rest)) := by
    simp only [Text.trim, List.append_assoc, Text.trimStart_spaces_append hsp]
    show Text.trimEnd (Text.trimStart ('#' :: ("impor".toList ++ 't' :: ' ' :: rest))) = _
    rw [Text.trimStart_cons (by decide)]
    show Text.trimEnd ("#impor".toList ++ 't' :: ' ' :: rest) = _
    rw [Text.trimEnd_append_cons (by decide)]
    rfl
  -- trimming the end leaves nothing of the rest, or a part that starts with the blank
  have hword : List.takeWhile (fun c => !Text.isBlank c)
      ("import".toList ++ Text.trimEnd (' ' :: rest)) = "import".toList := by
    obtain ⟨r, hr⟩ := Text.trimEnd_prefix (' ' :: rest)
    have himport : List.takeWhile (fun c => !Text.isBlank c) "import".toList = "import".toList := by
      decide
    rw [List.takeWhile_append, himport, if_pos rfl]
    cases h : Text.trimEnd (' ' :: rest) with
    | nil => simp
    | cons x z =>
      rw [h, List.cons_append] at hr
      rw [← (List.cons.inj hr).1, List.takeWhile_cons_of_neg (by decide), List.append_nil]
  have hstrip : Text.stripPrefix? "//".toList
      ('#' :: ("import".toList ++ Text.trimEnd (' ' :: rest))) = none := by
    rw [show "//".toList = ['/', '/'] from rfl]
    simp [Text.stripPrefix?, List.isPrefixOf]
  unfold read?
  simp only [htrim, hstrip, Option.map_none, Option.getD_none, hword, String.ofList_toList]
  rfl

end LineDirective

namespace Text

/-- `cs` starts a line that is no conditional directive: a part of it without line breaks
settles that. -/
def Begins (cs : List Char) : Prop :=
  ∃ pre rest, cs = pre ++ rest ∧ '\n' ∉ pre ∧ LineDirective.Settles pre

/-- After every line break of `cs` a line starts that is no conditional directive. -/
def LinesBegin (cs : List Char) : Prop :=
  ∀ pre post, cs = pre ++ '\n' :: post → Begins post

theorem Begins.append {a : List Char} (h : Begins a) (b : List Char) : Begins (a ++ b) := by
  obtain ⟨pre, rest, rfl, hn, hs⟩ := h
  exact ⟨pre, rest ++ b, by simp, hn, hs⟩

/-- A line break of `a ++ b` stands in `b`, or in `a` with the rest of `a` after it. -/
theorem break_of_append {a b pre post : List Char} (h : a ++ b = pre ++ '\n' :: post) :
    (∃ pre', b = pre' ++ '\n' :: post) ∨ (∃ post', a = pre ++ '\n' :: post' ∧ post = post' ++ b) := by
  rcases List.append_eq_append_iff.1 h with ⟨as, -, hb⟩ | ⟨bs, ha, hpost⟩
  · exact .inl ⟨as, hb⟩
  · cases bs with
    | nil => exact .inl ⟨[], by simpa using hpost.symm⟩
    | cons y bs =>
      obtain ⟨rfl, rfl⟩ := List.cons.inj hpost
      exact .inr ⟨bs, ha, rfl⟩

theorem LinesBegin.of_not_mem {a : List Char} (h : '\n' ∉ a) : LinesBegin a := by
  intro pre post heq
  exact absurd (by rw [heq]; simp) h

theorem LinesBegin.append {a b : List Char} (ha : LinesBegin a) (hb : LinesBegin b) :
    LinesBegin (a ++ b) := by
  intro pre post heq
  rcases break_of_append heq with ⟨pre', hb'⟩ | ⟨post', ha', rfl⟩
  · exact hb pre' post hb'
  · exact (ha pre post' ha').append b

theorem LinesBegin.cons_break {cs : List Char} (hbegin : Begins cs) (hlines : LinesBegin cs) :
    LinesBegin ('\n' :: cs) := by
  intro pre post heq
  cases pre with
  | nil =>
    obtain ⟨-, rfl⟩ := List.cons.inj heq
    exact hbegin
  | cons y pre => exact hlines pre post (List.cons.inj heq).2

/-- The lines the filter cuts from a text whose current line and every line after a break
start so are no directives. -/
theorem read?_linesFrom (cs : List Char) : ∀ acc : List Char,
    (acc.reverse ++ cs = [] ∨ Begins (acc.reverse ++ cs)) →
    (∀ pre post, cs = pre ++ '\n' :: post → post = [] ∨ Begins post) →
    ∀ l ∈ linesFrom cs acc, LineDirective.read? l = none := by
  induction cs with
  | nil =>
    intro acc hlead _ l hl
    cases acc with
    | nil => simp [linesFrom] at hl
    | cons a acc =>
      simp only [linesFrom, List.mem_singleton] at hl
      subst hl
      rcases hlead with h | ⟨pre, rest, h, -, hs⟩
      · simp at h
      · rw [List.append_nil] at h
        rw [h]
        exact hs rest
  | cons c r ih =>
    intro acc hlead hbreaks l hl
    by_cases hc : c = '\n'
    · subst hc
      simp only [linesFrom, List.mem_cons] at hl
      rcases hl with rfl | hl
      · -- the line that this break ends started with its settling part
        rcases hlead with h | ⟨pre, rest, h, hn, hs⟩
        · simp at h
        · rcases List.append_eq_append_iff.1 h with ⟨as, rfl, has⟩ | ⟨bs, hacc, -⟩
          · cases as with
            | nil =>
              simp only [List.append_nil] at hn ⊢
              simpa using hs ['\n']
            | cons y as =>
              obtain ⟨rfl, -⟩ := List.cons.inj has
              simp at hn
          · simp only [List.reverse_cons, hacc, List.append_assoc]
            exact hs _
      · exact ih [] (by simpa using hbreaks [] r rfl)
          (fun pre post h => hbreaks ('\n' :: pre) post (by rw [h]; rfl)) l hl
    · rw [linesFrom.eq_4 _ _ _ hc] at hl
      exact ih (c :: acc) (by simpa using hlead)
        (fun pre post h => hbreaks (c :: pre) post (by rw [h]; rfl)) l hl

/-- The lines of a text ending in a line break are no directives when its first line and
every line after a break inside it start so. -/
theorem read?_linesWithBreaks {cs : List Char} (hfirst : Begins cs) (hlines : LinesBegin cs) :
    ∀ l ∈ linesWithBreaks (cs ++ ['\n']), LineDirective.read? l = none := by
  refine read?_linesFrom _ [] (.inr (by simpa using hfirst.append ['\n'])) fun pre post h => ?_
  rcases break_of_append h with ⟨pre', hb⟩ | ⟨post', ha, rfl⟩
  · cases pre' with
    | nil => exact .inl (List.cons.inj hb).2.symm
    | cons y pre' => simp at hb
  · exact .inr ((hlines pre post' ha).append _)

end Text

/-- Lines that are no directives are all kept. -/
theorem Conditions.evaluates_of_plain (conds : Conditions) : ∀ {ls : List (List Char)},
    (∀ l ∈ ls, LineDirective.read? l = none) → conds.Evaluates true ls ls.flatten
  | [], _ => .nil true
  | l :: ls, h => by
    have := Conditions.Evaluates.line (h l (by simp))
      (Conditions.evaluates_of_plain conds fun l' hl' => h l' (List.mem_cons_of_mem _ hl'))
    simpa using this

/-- Conditions keep a text none of whose lines is an `#if`, `#else` or `#endif` line as it is,
and warn of nothing. -/
theorem applyConditions_of_directiveFree {text id : String} (conds : Conditions)
    (h : ∀ l ∈ Text.linesWithBreaks text.toList, LineDirective.read? l = none) :
    (applyConditions text id conds).map.dest = text ∧
      (applyConditions text id conds).warnings = [] := by
  obtain ⟨hmaps, hwarnings⟩ := applyConditions_eq text id conds
  have hscan := @Conditions.Evaluates.scans conds id text _ _ _ (conds.evaluates_of_plain h) 0 [] rfl
  refine ⟨?_, ?_⟩
  · rw [← String.toList_inj, hmaps.dest_eq, hscan.kept_eq, Text.flatten_linesWithBreaks]
  · rw [hwarnings, hscan.openAtEnd_eq, List.filterMap_eq_nil_iff.2 hscan.quiet]
    rfl

end ShaderLink
