import ShaderLink.Proofs.Parse.ImportSpelling
import ShaderLink.Parse.Import

/-!
# Reading written import trees

Every written import tree (`TreeText`) is read by the rules of directive lines as what it means
(`TreeText.readable`): from a cursor of the line set where the tree stands after spaces, and
something follows it that ends a tree (`TreeEnds`), `importTreeAfter` with the path `lead` read
so far gives `t.under lead`, given fuel for the depth of the tree.

The proof follows the rule. A name, a wildcard, a list or a path is told apart by its first
token; after a name the rule tries a separator, arguments and a renaming, each of which either
reads what is written or declines on the token that follows; a path reads its word and
separator and goes on with the tree after it, whose first character can never extend a
separator (`startsTree_plain`); a list reads its items one round at a time, after the line
breaks that may stand between them.
-/

namespace ShaderLink

open ShaderLink.Parser

namespace Parser

/-- The token ahead of `cs` on a directive line is no word or symbol spelled as one of `ss`. -/
def AheadNone (cs : List Char) (ss : List String) : Prop :=
  ∃ k w rest, Ahead .line cs k w rest ∧
    ∀ s ∈ ss, (String.ofList w == s && (k == .word || k == .symbol || k == .directive)) = false

theorem Ahead.declines_text_of_ne {c : Cursor} {k : TokenKind} {s : String} {w rest : List Char}
    (h : Ahead c.set c.rest k w rest) (hw : w ≠ s.toList) : Declines (text s) c := by
  refine h.declines_text ?_
  cases hs : String.ofList w == s
  · rfl
  · exact absurd (by rw [← eq_of_beq hs, String.toList_ofList]) hw

theorem AheadNone.declines {c : Cursor} {ss : List String} {s : String} (h : AheadNone c.rest ss)
    (hset : c.set = .line) (hs : s ∈ ss) : Declines (text s) c := by
  obtain ⟨k, w, rest, ha, hne⟩ := h
  exact Ahead.declines_text (by rw [hset]; exact ha) (hne s hs)

theorem AheadNone.mono {cs : List Char} {ss ss' : List String} (h : AheadNone cs ss)
    (hsub : ∀ s ∈ ss', s ∈ ss) : AheadNone cs ss' := by
  obtain ⟨k, w, rest, ha, hne⟩ := h
  exact ⟨k, w, rest, ha, fun s hs => hne s (hsub s hs)⟩

/-- The strings that continue a tree after a word: a separator, arguments or a renaming. -/
def treeContinuations : List String := ["/", "::", ".", "(", "as"]

/-- What may follow a written tree: no character that would continue its last word, and a
token that neither continues its path, opens arguments nor starts a renaming. -/
def TreeEnds (more : List Char) : Prop :=
  (∀ c ∈ more.head?, Text.isIdentContinue c = false) ∧ AheadNone more treeContinuations

/-- A comma, a closing brace or a semicolon ends a tree. -/
theorem treeEnds_punct {c : Char} (hc : c = ',' ∨ c = '\x7d' ∨ c = ';') (more : List Char) :
    TreeEnds (c :: more) := by
  have hsym : c ∈ plainSymbols := by rcases hc with rfl | rfl | rfl <;> decide
  refine ⟨fun x hx => ?_, ⟨_, _, _, ahead_plainSymbol hsym more, ?_⟩⟩
  · simp only [List.head?_cons, Option.mem_def, Option.some.injEq] at hx
    subst hx
    rcases hc with rfl | rfl | rfl <;> decide
  · rcases hc with rfl | rfl | rfl <;> decide

/-- A word after spaces is the token ahead. -/
theorem ahead_spacedWord {w gap : List Char} (hw : Text.isWord w = true) (hgap : Text.Spaces gap)
    (hmore : ∀ x ∈ more.head?, Text.isIdentContinue x = false) :
    Ahead .line (gap ++ (w ++ more)) .word w more := by
  obtain ⟨x, xs, hxs, hx⟩ := Text.isWord_cons hw
  exact Ahead.spaced (ahead_word hw hmore) hgap (by simp [hxs, (startsTree_plain hx).1])

/-- A keyword after one space, with a space after it. -/
theorem ahead_keyword {w : List Char} (hw : Text.isWord w = true) (more : List Char) :
    Ahead .line (' ' :: (w ++ ' ' :: more)) .word w (' ' :: more) :=
  ahead_spacedWord hw (by decide : Text.Spaces [' ']) (by simp; decide)

/-- The word `from` ends a tree. -/
theorem treeEnds_from (more : List Char) : TreeEnds (" from ".toList ++ more) := by
  have h := ahead_keyword (w := "from".toList) (by decide) more
  exact ⟨by simp; decide, ⟨_, _, _, by simpa using h, by decide⟩⟩

end Parser

namespace Grammar

variable {c : Cursor} {more : List Char}

/-! ### Words, renamings and arguments -/

/-- A word, after spaces. -/
theorem parses_word {a : String} {gap rest : List Char} (ha : Text.isWord a.toList = true)
    (hgap : Text.Spaces gap) (hc : c.rest = gap ++ (a.toList ++ rest)) (hset : c.set = .line)
    (hrest : ∀ x ∈ rest.head?, Text.isIdentContinue x = false) : Parses word c a rest := by
  obtain ⟨x, xs, hxs, hx⟩ := Text.isWord_cons ha
  have h := Ahead.spaced (ahead_word ha hrest) hgap (by simp [hxs, (startsTree_plain hx).1])
  rw [← hc, ← hset] at h
  obtain ⟨span, hp⟩ := h.parses_kind
  have := hp.map (g := (·.text))
  simp only [String.ofList_toList] at this
  exact this

theorem parses_asClause {a : String} (ha : Text.isWord a.toList = true)
    (hc : c.rest = (" as " ++ a).toList ++ more) (hset : c.set = .line)
    (hmore : ∀ x ∈ more.head?, Text.isIdentContinue x = false) : Parses asClause c a more := by
  have has : Ahead c.set c.rest .word "as".toList (' ' :: (a.toList ++ more)) := by
    have := ahead_keyword (w := "as".toList) (by decide) (a.toList ++ more)
    rw [hc, hset]
    simpa using this
  obtain ⟨tok, hp⟩ := has.parses_text rfl
  refine hp.bind fun c₁ hr₁ hs₁ => ?_
  exact (parses_word ha (by decide : Text.Spaces [' ']) (by simp [hr₁]) (hs₁.trans hset)
    hmore).commit

/-- A renaming, if one is written. -/
theorem parses_optional_asClause {asName : Option String}
    (hwf : asName.all (Text.isWord ·.toList) = true) (hc : c.rest = (renameSpelling asName).toList ++ more)
    (hset : c.set = .line) (hend : TreeEnds more) : Parses (optional asClause) c asName more := by
  cases asName with
  | none =>
    have hc' : c.rest = more := by simpa [renameSpelling] using hc
    have h := (AheadNone.declines (c := c) (s := "as") (by rw [hc']; exact hend.2) hset
      (by decide)).bind (f := fun _ => commit word "alias name")
    have h' := h.optional
    rw [hc'] at h'
    exact h'
  | some a =>
    exact (parses_asClause (by simpa using hwf) (by simpa [renameSpelling] using hc) hset
      hend.1).optional

/-- What a renaming, if any, leaves ahead of the tree's end: no separator and no parenthesis. -/
theorem aheadNone_rename (asName : Option String) (hend : TreeEnds more) :
    (∀ x ∈ ((renameSpelling asName).toList ++ more).head?, Text.isIdentContinue x = false) ∧
      AheadNone ((renameSpelling asName).toList ++ more) ["/", "::", ".", "("] := by
  cases asName with
  | none => exact ⟨by simpa [renameSpelling] using hend.1,
      by simpa [renameSpelling] using hend.2.mono (by decide)⟩
  | some a =>
    have h := ahead_keyword (w := "as".toList) (by decide) (a.toList ++ more)
    exact ⟨by simp [renameSpelling]; decide, _, _, _, by simpa [renameSpelling] using h, by decide⟩

/-- What arguments and a renaming, if any, leave ahead of the tree's end: no separator. -/
theorem aheadNone_args (args : Option (List String)) (asName : Option String)
    (hend : TreeEnds more) :
    (∀ x ∈ ((argsSpelling args ++ renameSpelling asName).toList ++ more).head?,
      Text.isIdentContinue x = false) ∧
      AheadNone ((argsSpelling args ++ renameSpelling asName).toList ++ more) ["/", "::", "."] := by
  cases args with
  | none =>
    obtain ⟨hhead, hnone⟩ := aheadNone_rename asName hend
    exact ⟨by simpa [argsSpelling] using hhead, by simpa [argsSpelling] using hnone.mono (by decide)⟩
  | some args =>
    -- the arguments open with a parenthesis
    obtain ⟨rest, hrest⟩ : ∃ rest, (argsSpelling (some args) ++ renameSpelling asName).toList ++ more =
        '(' :: rest := by
      cases args <;> exact ⟨_, by simp [argsSpelling]; rfl⟩
    rw [hrest]
    exact ⟨by simp; decide, _, _, _, ahead_plainSymbol (by decide) rest, by decide⟩

/-- One argument, a word or a numeral, after spaces and before a comma or a closing
parenthesis. -/
theorem parses_argument {a : String} {gap : List Char} {d : Char} (ha : isArgument a = true)
    (hgap : Text.Spaces gap) (hc : c.rest = gap ++ (a.toList ++ d :: more)) (hset : c.set = .line)
    (hd : d = ',' ∨ d = ')') :
    Parses ((·.text) <$> (kind .word).orElse (kind .number)) c a (d :: more) := by
  have hcont : Text.isIdentContinue d = false := by rcases hd with rfl | rfl <;> decide
  cases hw : Text.isWord a.toList
  · -- a numeral is no word, and is read as a number
    have hn : Text.isNumeral a.toList = true := by simpa [isArgument, hw] using ha
    have hfirst : ∀ x ∈ a.toList.head?, Text.isBlank x = false := by
      intro x hx
      simp only [Text.isNumeral, Bool.and_eq_true, List.all_eq_true] at hn
      exact Text.isDigit_isBlank (hn.2 x (List.mem_of_mem_head? hx))
    have h : ∀ c₁ : Cursor, c₁.rest = c.rest → c₁.set = c.set →
        Ahead c₁.set c₁.rest .number a.toList (d :: more) := by
      intro c₁ hr₁ hs₁
      rw [hr₁, hs₁, hc, hset]
      exact Ahead.spaced (ahead_numeral hn hd) hgap hfirst
    refine ((h c rfl rfl).declines_kind (by decide : TokenKind.number ≠ .word)).orElse_map fun c₁ hr₁ hs₁ => ?_
    obtain ⟨span, hp⟩ := (h c₁ hr₁ hs₁).parses_kind
    have := hp.map (g := (·.text))
    simp only [String.ofList_toList] at this
    exact this
  · obtain ⟨x, xs, hxs, hx⟩ := Text.isWord_cons hw
    have h := Ahead.spaced (ahead_word hw
      (by simpa using hcont : ∀ x ∈ (d :: more).head?, Text.isIdentContinue x = false)) hgap
      (by simp [hxs, (startsTree_plain hx).1])
    rw [← hc, ← hset] at h
    obtain ⟨span, hp⟩ := h.parses_kind
    have := (hp.orElse (q := kind .number)).map (g := (·.text))
    simp only [String.ofList_toList] at this
    exact this

/-- The arguments after the first are each written after a comma and a space. -/
theorem argsTail_cons (a : String) (as : List String) (more : List Char) :
    (String.join ((a :: as).map (", " ++ ·))).toList ++ more =
      ',' :: ' ' :: (a.toList ++ ((String.join (as.map (", " ++ ·))).toList ++ more)) := by
  simp only [List.map_cons, String.join_cons, String.toList_append, List.append_assoc]
  rfl

theorem argsTail_head (as : List String) (more : List Char) :
    ∃ d more', (String.join (as.map (", " ++ ·))).toList ++ ')' :: more = d :: more' ∧
      (d = ',' ∨ d = ')') := by
  cases as with
  | nil => exact ⟨')', more, by simp, .inr rfl⟩
  | cons a as => exact ⟨',', _, argsTail_cons a as _, .inl rfl⟩

theorem length_le_argsTail (as : List String) :
    as.length ≤ (String.join (as.map (", " ++ ·))).toList.length := by
  induction as with
  | nil => simp
  | cons a as ih =>
    have h := argsTail_cons a as []
    rw [List.append_nil] at h
    rw [h]
    simp only [List.length_cons, List.length_append]
    omega

/-- The arguments after the first, each after a comma and a space, up to the closing
parenthesis. -/
theorem parses_argsTail {as : List String} (has : as.all isArgument = true) :
    ∀ (fuel : Nat) (c : Cursor), as.length < fuel →
      c.rest = (String.join (as.map (", " ++ ·))).toList ++ ')' :: more → c.set = .line →
      Parses (sepTailFor ((·.text) <$> (kind .word).orElse (kind .number)) (text ",") fuel) c as
        (')' :: more) := by
  induction as with
  | nil =>
    intro fuel c hlt hc hset
    obtain ⟨fuel, rfl⟩ : ∃ f, fuel = f + 1 := ⟨fuel - 1, by simp at hlt; omega⟩
    have hc' : c.rest = ')' :: more := by simpa using hc
    have h := (Ahead.declines_text (s := ",") ((ahead_plainSymbol (by decide) more).at hc' hset)
      (by decide)).sepTailFor (p := (·.text) <$> (kind .word).orElse (kind .number)) fuel
    rwa [hc'] at h
  | cons a as ih =>
    intro fuel c hlt hc hset
    obtain ⟨fuel, rfl⟩ : ∃ f, fuel = f + 1 := ⟨fuel - 1, by simp at hlt; omega⟩
    simp only [List.all_cons, Bool.and_eq_true] at has
    obtain ⟨d, more', htail, hd⟩ := argsTail_head as more
    rw [argsTail_cons] at hc
    obtain ⟨tok, hcomma⟩ := ((ahead_plainSymbol (by decide) _).at hc hset).parses_text (s := ",") rfl
    refine hcomma.sepTailFor_cons (fun c₁ hr₁ hs₁ => parses_argument has.1
      (by decide : Text.Spaces [' '])
      (by rw [hr₁, htail]; rfl) (hs₁.trans hset) hd) fun c₂ hr₂ hs₂ => ?_
    exact ih has.2 fuel c₂ (by simpa using hlt) (hr₂.trans htail.symm) (hs₂.trans hset)

/-- Arguments in parentheses, as written. -/
theorem parses_importArgs {args : List String} (hargs : args.all isArgument = true)
    (hc : c.rest = (argsSpelling (some args)).toList ++ more) (hset : c.set = .line) :
    Parses importArgs c args more := by
  unfold importArgs
  cases args with
  | nil =>
    have hc' : c.rest = '(' :: ')' :: more := by rw [hc]; rfl
    obtain ⟨t₁, hopen⟩ :=
      ((ahead_plainSymbol (by decide) _).at hc' hset).parses_text (s := "(") rfl
    refine hopen.bind fun c₁ hr₁ hs₁ => ?_
    have hclose : Ahead c₁.set c₁.rest .symbol [')'] more :=
      (ahead_plainSymbol (by decide) more).at hr₁ (hs₁.trans hset)
    have hnone : Declines ((·.text) <$> (kind .word).orElse (kind .number)) c₁ :=
      (Declines.orElse_declines (hclose.declines_kind (by decide)) fun c₂ hr₂ hs₂ =>
        (hclose.at hr₂ hs₂).declines_kind (by decide)).map
    refine hnone.sepBy.bind fun c₂ hr₂ hs₂ => ?_
    obtain ⟨t₂, hp⟩ := (hclose.at hr₂ hs₂).parses_text (s := ")") rfl
    exact hp.commit.bind fun c₃ hr₃ _ => hr₃ ▸ parses_pure _ _
  | cons a as =>
    simp only [List.all_cons, Bool.and_eq_true] at hargs
    have hc' : c.rest = '(' :: (a.toList ++
        ((String.join (as.map (", " ++ ·))).toList ++ ')' :: more)) := by
      rw [hc]
      simp only [argsSpelling, String.toList_append, List.append_assoc]
      rfl
    obtain ⟨t₁, hopen⟩ :=
      ((ahead_plainSymbol (by decide) _).at hc' hset).parses_text (s := "(") rfl
    refine hopen.bind fun c₁ hr₁ hs₁ => ?_
    obtain ⟨d, more', htail, hd⟩ := argsTail_head as more
    have hfirst := parses_argument hargs.1 (c := c₁) (by decide : Text.Spaces [])
      (by rw [hr₁, htail]; rfl) (hs₁.trans hset) hd
    refine (hfirst.sepBy fun c₂ hr₂ hs₂ =>
      parses_argsTail hargs.2 _ c₂ ?_ (hr₂.trans htail.symm) (hs₂.trans (hs₁.trans hset))).bind
      fun c₂ hr₂ hs₂ => ?_
    · rw [← htail, List.length_append]
      have := length_le_argsTail as
      omega
    · obtain ⟨t₂, hp⟩ := ((ahead_plainSymbol (by decide) more).at hr₂
        (hs₂.trans (hs₁.trans hset))).parses_text (s := ")") rfl
      exact hp.commit.bind fun c₃ hr₃ _ => hr₃ ▸ parses_pure _ _

/-- Arguments, if any are written; where none are, no parenthesis is ahead. -/
theorem parses_optional_importArgs {args : Option (List String)}
    (hargs : args.all (·.all isArgument) = true) (hc : c.rest = (argsSpelling args).toList ++ more)
    (hset : c.set = .line) (hnone : args = none → AheadNone more ["("]) :
    Parses (optional importArgs) c args more := by
  cases args with
  | none =>
    have hc' : c.rest = more := by simpa [argsSpelling] using hc
    have hd : Declines importArgs c := by
      unfold importArgs
      exact (AheadNone.declines (by rw [hc']; exact hnone rfl) hset (by decide)).bind
    have h := hd.optional
    rw [hc'] at h
    exact h
  | some args => exact (parses_importArgs (by simpa using hargs) hc hset).optional

/-! ### Separators, markers and line breaks -/

/-- Where no separator is ahead, none is read. -/
theorem declines_separator (h : AheadNone c.rest ["/", "::", "."]) (hset : c.set = .line) :
    Declines separator c := by
  unfold separator
  refine Declines.orElse_declines (h.declines hset (by decide)) fun c₁ hr₁ hs₁ => ?_
  have h₁ : AheadNone c₁.rest ["/", "::", "."] := hr₁ ▸ h
  refine Declines.orElse_declines (h₁.declines (hs₁.trans hset) (by decide)) fun c₂ hr₂ hs₂ => ?_
  exact (hr₂ ▸ h₁ : AheadNone c₂.rest _).declines (hs₂.trans (hs₁.trans hset)) (by decide)

/-- A separator in front of a tree is read as one. -/
theorem parses_separator (sep : PathSeparator) {x : Char} (hx : startsTree x = true)
    (hc : c.rest = sep.spelling.toList ++ x :: more) (hset : c.set = .line) :
    ∃ tok, Parses separator c tok (x :: more) := by
  obtain ⟨-, hslash, hdot, hdigit⟩ := startsTree_plain hx
  unfold separator
  cases sep with
  | slash =>
    obtain ⟨tok, h⟩ := ((ahead_slash (by simpa using hslash : (x :: more).head? ≠ some '/')).at hc
      hset).parses_text (s := "/") rfl
    exact ⟨tok, h.orElse⟩
  | colons =>
    have ha := ahead_colons (x :: more)
    refine Declines.orElse_exists ((ha.at hc hset).declines_text (by decide)) fun c₁ hr₁ hs₁ => ?_
    obtain ⟨tok, h⟩ := (ha.at (hr₁.trans hc) (hs₁.trans hset)).parses_text (s := "::") rfl
    exact ⟨tok, h.orElse⟩
  | dot =>
    have ha := ahead_dot (by simpa using ⟨hslash, hdot, hdigit⟩ :
      ∀ y ∈ (x :: more).head?, y ≠ '/' ∧ y ≠ '.' ∧ Lexer.isDigit y = false)
    refine Declines.orElse_exists ((ha.at hc hset).declines_text (by decide)) fun c₁ hr₁ hs₁ => ?_
    have ha₁ := ha.at (hr₁.trans hc) (hs₁.trans hset)
    refine Declines.orElse_exists (ha₁.declines_text (by decide)) fun c₂ hr₂ hs₂ => ?_
    obtain ⟨tok, h⟩ := (ha.at (hr₂.trans (hr₁.trans hc)) (hs₂.trans (hs₁.trans hset))).parses_text
      (s := ".") rfl
    exact ⟨tok, h⟩

/-- The first token of a written tree, after any spaces: a word, or the `*` or `{` it opens
with; never a closing brace. -/
theorem TreeText.ahead_first {t : TreeText} {gap : List Char} (ht : t.wellFormed = true)
    (hend : TreeEnds more) (hgap : Text.Spaces gap) :
    ∃ k w rest, Ahead .line (gap ++ (t.spelling.toList ++ more)) k w rest ∧
      (k = .word ∨ k = .symbol) ∧ w ≠ ['\x7d'] := by
  have hword : ∀ {w : List Char}, Text.isWord w = true → w ≠ ['\x7d'] := by
    rintro w hw rfl
    exact absurd hw (by decide)
  cases t with
  | simple name args asName =>
    simp only [TreeText.wellFormed, Bool.and_eq_true] at ht
    obtain ⟨x, xs, hxs, hx⟩ := Text.isWord_cons ht.1.1
    have h := Ahead.spaced (ahead_word ht.1.1 (aheadNone_args args asName
      hend).1) hgap (by simp [hxs, (startsTree_plain hx).1])
    exact ⟨.word, name.toList, _, by simpa [TreeText.spelling] using h, .inl rfl, hword ht.1.1⟩
  | wildcard asName =>
    have h := Ahead.spaced (ahead_plainSymbol (c := '*') (by decide)
      ((renameSpelling asName).toList ++ more)) hgap (head_not_blank (by decide) _)
    exact ⟨.symbol, ['*'], _, by simpa [TreeText.spelling] using h, .inr rfl, by decide⟩
  | list layout items =>
    cases layout with
    | inline =>
      have h := Ahead.spaced (ahead_plainSymbol (c := '\x7b') (by decide)
        ((items.inlineSpelling ++ "\x7d").toList ++ more)) hgap (head_not_blank (by decide) _)
      exact ⟨.symbol, ['\x7b'], _, by simpa [TreeText.spelling] using h, .inr rfl, by decide⟩
    | lines =>
      have h := Ahead.spaced (ahead_plainSymbol (c := '\x7b') (by decide)
        ((items.linesSpelling ++ "\n\x7d").toList ++ more)) hgap (head_not_blank (by decide) _)
      exact ⟨.symbol, ['\x7b'], _, by simpa [TreeText.spelling] using h, .inr rfl, by decide⟩
  | path segment sep tail =>
    simp only [TreeText.wellFormed, Bool.and_eq_true] at ht
    obtain ⟨x, xs, hxs, hx⟩ := Text.isWord_cons ht.1
    have hsep : ∀ y ∈ (sep.spelling.toList ++ (tail.spelling.toList ++ more)).head?,
        Text.isIdentContinue y = false := by
      cases sep <;> simp [PathSeparator.spelling] <;> decide
    have h := Ahead.spaced (ahead_word ht.1 hsep) hgap (by simp [hxs, (startsTree_plain hx).1])
    exact ⟨.word, segment.toList, _, by simpa [TreeText.spelling] using h, .inl rfl, hword ht.1⟩

/-- A marker is read as a relative prefix. -/
theorem ahead_marker (m : PathMarker) (more : List Char) :
    Ahead .line (m.spelling.toList ++ more) .relativePrefix m.spelling.toList more := by
  cases m with
  | here => exact ahead_marker_here more
  | up => exact ahead_marker_up more

theorem marker_head_not_blank (m : PathMarker) :
    ∀ x ∈ m.spelling.toList.head?, Text.isBlank x = false := by
  cases m <;> exact head_not_blank (by decide) _

theorem length_le_markersSpelling (ms : List PathMarker) :
    ms.length ≤ (markersSpelling ms).toList.length := by
  induction ms with
  | nil => simp
  | cons m ms ih =>
    have hm : 1 ≤ m.spelling.toList.length := by cases m <;> decide
    simp only [markersSpelling, List.map_cons, String.join_cons, String.toList_append,
      List.length_append, List.length_cons] at ih ⊢
    omega

/-- The segment a relative prefix token stands for. -/
def markerSegment (t : Token) : String := if t.text == "./" then "." else ".."

theorem markerSegment_spelling (m : PathMarker) (span : Span) :
    markerSegment ⟨.relativePrefix, String.ofList m.spelling.toList, span⟩ = m.segment := by
  cases m <;> rfl

/-- The markers of a tree, read one by one; where there are none, the spaces in front stay. -/
theorem parses_markers_from {cs : List Char}
    (hstop : ∀ gap, Text.Spaces gap → ∃ k w rest, Ahead .line (gap ++ cs) k w rest ∧
      k ≠ .relativePrefix) (ms : List PathMarker) :
    ∀ (fuel : Nat) (c : Cursor) (gap : List Char), Text.Spaces gap → ms.length < fuel →
      c.rest = gap ++ ((markersSpelling ms).toList ++ cs) → c.set = .line →
      Parses (manyFor (markerSegment <$> kind .relativePrefix) fuel) c (ms.map PathMarker.segment)
        ((if ms = [] then gap else []) ++ cs) := by
  induction ms with
  | nil =>
    intro fuel c gap hgap hlt hc hset
    obtain ⟨fuel, rfl⟩ : ∃ f, fuel = f + 1 := ⟨fuel - 1, by simp at hlt; omega⟩
    obtain ⟨k, w, rest, ha, hk⟩ := hstop gap hgap
    have hc' : c.rest = gap ++ cs := by simpa [markersSpelling] using hc
    have h := ((ha.at hc' hset).declines_kind hk).map (g := markerSegment) |>.manyFor fuel
    rw [hc'] at h
    simpa using h
  | cons m ms ih =>
    intro fuel c gap hgap hlt hc hset
    obtain ⟨fuel, rfl⟩ : ∃ f, fuel = f + 1 := ⟨fuel - 1, by simp at hlt; omega⟩
    have hc' : c.rest = gap ++ (m.spelling.toList ++ ((markersSpelling ms).toList ++ cs)) := by
      rw [hc]
      simp [markersSpelling]
    have ha := Ahead.spaced (ahead_marker m ((markersSpelling ms).toList ++ cs)) hgap
      (marker_head_not_blank m)
    obtain ⟨span, hp⟩ := (ha.at hc' hset).parses_kind
    have hm := hp.map (g := markerSegment)
    rw [markerSegment_spelling] at hm
    refine hm.manyFor_cons fun c₁ hr₁ hs₁ => ?_
    have h := ih fuel c₁ [] (by decide) (by simpa using hlt) (by simpa using hr₁) (hs₁.trans hset)
    simpa using h

/-- The relative markers in front of a tree. -/
theorem parses_relativeMarkers {ms : List PathMarker} {gap cs : List Char}
    (hstop : ∀ gap, Text.Spaces gap → ∃ k w rest, Ahead .line (gap ++ cs) k w rest ∧
      k ≠ .relativePrefix)
    (hgap : Text.Spaces gap) (hc : c.rest = gap ++ ((markersSpelling ms).toList ++ cs))
    (hset : c.set = .line) :
    ∃ gap', Text.Spaces gap' ∧ Parses relativeMarkers c (ms.map PathMarker.segment) (gap' ++ cs) := by
  have hgap' : Text.Spaces (if ms = [] then gap else []) := by
    split
    · exact hgap
    · intro x hx
      simp at hx
  refine ⟨_, hgap', ?_⟩
  have hlen := length_le_markersSpelling ms
  exact parses_many_iff.2 (parses_markers_from hstop ms _ c gap hgap
    (by rw [hc]; simp only [List.length_append]; omega) hc hset)

/-- No line break is ahead: none is skipped. -/
theorem parses_skipLineBreaks_none {k : TokenKind} {w rest : List Char}
    (h : Ahead c.set c.rest k w rest) (hk : k ≠ .eol) : Parses skipLineBreaks c () c.rest := by
  unfold skipLineBreaks
  refine (parses_many_iff.2 ((h.declines_kind hk).manyFor _)).bind fun c₁ hr₁ _ => ?_
  exact hr₁ ▸ parses_pure _ _

/-- One line break is ahead, and no other after it: it is skipped. -/
theorem parses_skipLineBreaks_one {cs : List Char} (hc : c.rest = '\n' :: cs) (hset : c.set = .line)
    (hnext : ∃ k w rest, Ahead .line cs k w rest ∧ k ≠ .eol) : Parses skipLineBreaks c () cs := by
  unfold skipLineBreaks
  obtain ⟨k, w, rest, ha, hk⟩ := hnext
  obtain ⟨span, hp⟩ := ((ahead_eol cs).at hc hset).parses_kind
  have hmany : Parses (manyFor (kind .eol) (c.rest.length + 1)) c
      [⟨.eol, String.ofList ['\n'], span⟩] cs := by
    rw [hc, List.length_cons]
    refine hp.manyFor_cons fun c₁ hr₁ hs₁ => ?_
    have := ((ha.at hr₁ (hs₁.trans hset)).declines_kind hk).manyFor cs.length
    rwa [hr₁] at this
  exact (parses_many_iff.2 hmany).bind fun c₁ hr₁ _ => hr₁ ▸ parses_pure _ _

/-! ### Trees -/

end Grammar

theorem Text.ne_of_isWord {w : List Char} {s : String} (hw : Text.isWord w = true)
    (hs : Text.isWord s.toList = false) : w ≠ s.toList := by
  rintro rfl
  rw [hs] at hw
  cases hw

/-- A written tree is read as what it means after the path `lead` read before it: from spaces
in front of it, up to what ends it, with fuel for its depth. -/
def TreeText.Readable (t : TreeText) : Prop :=
  ∀ (fuel : Nat) (lead : List String) (gap more : List Char) (c : Cursor), t.depth ≤ fuel →
    Text.Spaces gap → c.rest = gap ++ (t.spelling.toList ++ more) → c.set = .line →
    TreeEnds more → Parses (Grammar.importTreeAfter fuel lead) c (t.under lead) more

/-- Every item of a written list is readable. -/
def ItemsText.Readable : ItemsText → Prop
  | .nil => True
  | .cons _ t rest => t.Readable ∧ rest.Readable

theorem ItemsText.inlineSpelling_cons (ms : List PathMarker) (t : TreeText) (rest : ItemsText) :
    (ItemsText.cons ms t rest).inlineSpelling.toList =
      (markersSpelling ms).toList ++ (t.spelling.toList ++ rest.inlineRest.toList) := by
  simp [ItemsText.inlineSpelling]

theorem ItemsText.inlineRest_nil : ItemsText.nil.inlineRest.toList = [] := by
  simp [ItemsText.inlineRest]

theorem ItemsText.inlineRest_cons (ms : List PathMarker) (t : TreeText) (rest : ItemsText) :
    (ItemsText.cons ms t rest).inlineRest.toList =
      ',' :: ' ' :: (ItemsText.cons ms t rest).inlineSpelling.toList := by
  simp only [ItemsText.inlineRest, ItemsText.inlineSpelling, String.toList_append,
    List.append_assoc]
  rfl

theorem ItemsText.linesSpelling_cons (ms : List PathMarker) (t : TreeText) (rest : ItemsText) :
    (ItemsText.cons ms t rest).linesSpelling.toList = '\n' :: ' ' :: ' ' ::
      ((markersSpelling ms).toList ++ (t.spelling.toList ++ ',' :: rest.linesSpelling.toList)) := by
  simp only [ItemsText.linesSpelling, String.toList_append, List.append_assoc]
  rfl

namespace Grammar

theorem readable_simple {name : String} {args : Option (List String)} {asName : Option String}
    (hwf : (TreeText.simple name args asName).wellFormed = true) :
    (TreeText.simple name args asName).Readable := by
  intro fuel lead gap more c hfuel hgap hc hset hend
  obtain ⟨f, rfl⟩ : ∃ f, fuel = f + 1 := ⟨fuel - 1, by simp [TreeText.depth] at hfuel; omega⟩
  simp only [TreeText.wellFormed, Bool.and_eq_true] at hwf
  obtain ⟨⟨hname, hargs⟩, hrename⟩ := hwf
  obtain ⟨hafter, hnone⟩ := aheadNone_args args asName hend
  have hc' : c.rest = gap ++ (name.toList ++
      ((argsSpelling args ++ renameSpelling asName).toList ++ more)) := by
    simpa [TreeText.spelling] using hc
  -- the name is ahead: no list and no wildcard starts here
  have ha : ∀ c₁ : Cursor, c₁.rest = c.rest → c₁.set = c.set →
      Ahead c₁.set c₁.rest .word name.toList _ :=
    fun c₁ hr hs => (ahead_spacedWord hname hgap hafter).at (hr.trans hc') (hs.trans hset)
  simp only [TreeText.under]
  rw [importTreeAfter]
  refine ((ha c rfl rfl).declines_text_of_ne (s := "\x7b") (Text.ne_of_isWord hname
    (by decide))).optional.bind fun c₁ hr₁ hs₁ => ?_
  simp only [Option.isSome_none, Bool.false_eq_true, if_false]
  refine ((ha c₁ hr₁ hs₁).declines_text_of_ne (s := "*") (Text.ne_of_isWord hname
    (by decide))).optional.bind fun c₂ hr₂ hs₂ => ?_
  simp only [Option.isSome_none, Bool.false_eq_true, if_false]
  refine (parses_word hname hgap (hr₂.trans (hr₁.trans hc')) (hs₂.trans (hs₁.trans hset))
    hafter).commit.bind fun c₃ hr₃ hs₃ => ?_
  have hset₃ : c₃.set = .line := hs₃.trans (hs₂.trans (hs₁.trans hset))
  refine (declines_separator (hr₃ ▸ hnone) hset₃).optional.bind fun c₄ hr₄ hs₄ => ?_
  simp only [Option.isSome_none, Bool.false_eq_true, if_false]
  refine (parses_optional_importArgs hargs (by simp [hr₄, hr₃]) (hs₄.trans hset₃)
    fun _ => (aheadNone_rename asName hend).2.mono (by decide)).bind fun c₅ hr₅ hs₅ => ?_
  refine (parses_optional_asClause hrename hr₅ (hs₅.trans (hs₄.trans hset₃)) hend).bind
    fun c₆ hr₆ _ => ?_
  exact hr₆ ▸ parses_pure _ _

theorem readable_wildcard {asName : Option String}
    (hwf : (TreeText.wildcard asName).wellFormed = true) : (TreeText.wildcard asName).Readable := by
  intro fuel lead gap more c hfuel hgap hc hset hend
  obtain ⟨f, rfl⟩ : ∃ f, fuel = f + 1 := ⟨fuel - 1, by simp [TreeText.depth] at hfuel; omega⟩
  simp only [TreeText.wellFormed] at hwf
  have hc' : c.rest = gap ++ (['*'] ++ ((renameSpelling asName).toList ++ more)) := by
    simpa [TreeText.spelling] using hc
  have ha : Ahead c.set c.rest .symbol ['*'] ((renameSpelling asName).toList ++ more) :=
    (Ahead.spaced (ahead_plainSymbol (c := '*') (by decide) _) hgap
      (head_not_blank (by decide) _)).at hc' hset
  simp only [TreeText.under]
  rw [importTreeAfter]
  refine (ha.declines_text_of_ne (s := "\x7b") (by decide)).optional.bind fun c₁ hr₁ hs₁ => ?_
  simp only [Option.isSome_none, Bool.false_eq_true, if_false]
  obtain ⟨tok, hstar⟩ := (ha.at hr₁ hs₁).parses_text (s := "*") rfl
  refine hstar.optional.bind fun c₂ hr₂ hs₂ => ?_
  simp only [Option.isSome_some, if_true]
  refine (parses_optional_asClause hwf hr₂ (hs₂.trans (hs₁.trans hset)) hend).bind
    fun c₃ hr₃ _ => ?_
  exact hr₃ ▸ parses_pure _ _

/-- A path in front of a tree: its word joins the lead, and the tree after the separator is
read with it. -/
theorem readable_path {segment : String} {sep : PathSeparator} {tail : TreeText}
    (hwf : (TreeText.path segment sep tail).wellFormed = true) (htail : tail.Readable) :
    (TreeText.path segment sep tail).Readable := by
  intro fuel lead gap more c hfuel hgap hc hset hend
  obtain ⟨f, rfl⟩ : ∃ f, fuel = f + 1 := ⟨fuel - 1, by simp [TreeText.depth] at hfuel; omega⟩
  simp only [TreeText.wellFormed, Bool.and_eq_true] at hwf
  obtain ⟨x, xs, hxs, hx⟩ := TreeText.spelling_cons hwf.2
  have hsep : ∀ y ∈ (sep.spelling.toList ++ (tail.spelling.toList ++ more)).head?,
      Text.isIdentContinue y = false := by
    cases sep <;> simp [PathSeparator.spelling] <;> decide
  have hc' : c.rest = gap ++ (segment.toList ++
      (sep.spelling.toList ++ (tail.spelling.toList ++ more))) := by
    simpa [TreeText.spelling] using hc
  have ha : ∀ c₁ : Cursor, c₁.rest = c.rest → c₁.set = c.set →
      Ahead c₁.set c₁.rest .word segment.toList _ :=
    fun c₁ hr hs => (ahead_spacedWord hwf.1 hgap hsep).at (hr.trans hc') (hs.trans hset)
  simp only [TreeText.under]
  rw [importTreeAfter]
  refine ((ha c rfl rfl).declines_text_of_ne (s := "\x7b") (Text.ne_of_isWord hwf.1
    (by decide))).optional.bind fun c₁ hr₁ hs₁ => ?_
  simp only [Option.isSome_none, Bool.false_eq_true, if_false]
  refine ((ha c₁ hr₁ hs₁).declines_text_of_ne (s := "*") (Text.ne_of_isWord hwf.1
    (by decide))).optional.bind fun c₂ hr₂ hs₂ => ?_
  simp only [Option.isSome_none, Bool.false_eq_true, if_false]
  refine (parses_word hwf.1 hgap (hr₂.trans (hr₁.trans hc')) (hs₂.trans (hs₁.trans hset))
    hsep).commit.bind fun c₃ hr₃ hs₃ => ?_
  have hset₃ : c₃.set = .line := hs₃.trans (hs₂.trans (hs₁.trans hset))
  -- the separator is read, and the tree after it starts right behind it
  obtain ⟨tok, hread⟩ := parses_separator sep hx (by rw [hr₃, hxs]; rfl) hset₃
  refine hread.optional.bind fun c₄ hr₄ hs₄ => ?_
  simp only [Option.isSome_some, if_true]
  exact htail f (lead ++ [segment]) [] more c₄ (by simp [TreeText.depth] at hfuel; omega)
    (by decide) (by rw [hr₄, hxs]; rfl) (hs₄.trans hset₃) hend

/-! ### Lists -/

/-- The first token of an item, after spaces: a marker, or the first token of its tree; never
a line break or a closing brace. -/
theorem ahead_item (ms : List PathMarker) {t : TreeText} {gap : List Char}
    (ht : t.wellFormed = true) (hend : TreeEnds more) (hgap : Text.Spaces gap) :
    ∃ k w rest, Ahead .line (gap ++ ((markersSpelling ms).toList ++ (t.spelling.toList ++ more)))
      k w rest ∧ k ≠ .eol ∧ w ≠ ['\x7d'] := by
  cases ms with
  | nil =>
    obtain ⟨k, w, rest, ha, hk, hw⟩ := TreeText.ahead_first ht hend hgap
    exact ⟨k, w, rest, by simpa [markersSpelling] using ha, by rcases hk with rfl | rfl <;> decide, hw⟩
  | cons m ms =>
    have ha := Ahead.spaced (ahead_marker m ((markersSpelling ms).toList ++ (t.spelling.toList ++
      more))) hgap (marker_head_not_blank m)
    exact ⟨_, _, _, by simpa [markersSpelling] using ha, by decide, by cases m <;> decide⟩

/-- An item of a list: its markers, then its tree read after them. -/
theorem parses_item (ms : List PathMarker) {t : TreeText} {gap : List Char} {fuel : Nat}
    (ht : t.wellFormed = true) (hread : t.Readable) (hfuel : t.depth + 1 ≤ fuel)
    (hgap : Text.Spaces gap)
    (hc : c.rest = gap ++ ((markersSpelling ms).toList ++ (t.spelling.toList ++ more)))
    (hset : c.set = .line) (hend : TreeEnds more) :
    Parses (importTree fuel) c (t.under (ms.map PathMarker.segment)) more := by
  obtain ⟨f, rfl⟩ : ∃ f, fuel = f + 1 := ⟨fuel - 1, by omega⟩
  rw [importTree]
  have hstop : ∀ gap, Text.Spaces gap → ∃ k w rest,
      Ahead .line (gap ++ (t.spelling.toList ++ more)) k w rest ∧ k ≠ .relativePrefix := by
    intro gap hgap
    obtain ⟨k, w, rest, ha, hk, -⟩ := TreeText.ahead_first ht hend hgap
    exact ⟨k, w, rest, ha, by rcases hk with rfl | rfl <;> decide⟩
  obtain ⟨gap', hgap', hm⟩ := parses_relativeMarkers hstop hgap hc hset
  exact hm.bind fun c₁ hr₁ hs₁ => hread f _ gap' more c₁ (by omega) hgap' hr₁ (hs₁.trans hset) hend

/-- The closing brace of a list, after the line breaks and spaces in front of it. -/
theorem parses_listClose {acc : List ImportTree} {gap : List Char} {fuel : Nat}
    (hskip : Parses skipLineBreaks c () (gap ++ '\x7d' :: more)) (hgap : Text.Spaces gap)
    (hset : c.set = .line) :
    Parses (importListAfter (fuel + 1) acc) c acc.reverse more := by
  rw [importListAfter]
  refine hskip.bind fun c₁ hr₁ hs₁ => ?_
  obtain ⟨tok, hclose⟩ := ((Ahead.spaced (ahead_plainSymbol (c := '\x7d') (by decide) more) hgap
    (head_not_blank (by decide) _)).at hr₁ (hs₁.trans hset)).parses_text (s := "\x7d") rfl
  refine hclose.optional.bind fun c₂ hr₂ _ => ?_
  simp only [Option.isSome_some, if_true]
  exact hr₂ ▸ parses_pure _ _

/-- One round of a list: an item, then either a comma and the rounds after it, or the closing
brace. -/
theorem parses_listRound {ms : List PathMarker} {t : TreeText} {gap after : List Char} {d : Char}
    {acc trees : List ImportTree} {fuel : Nat}
    (hskip : Parses skipLineBreaks c ()
      (gap ++ ((markersSpelling ms).toList ++ (t.spelling.toList ++ d :: after))))
    (ht : t.wellFormed = true) (hread : t.Readable) (hfuel : t.depth + 1 ≤ fuel)
    (hgap : Text.Spaces gap) (hset : c.set = .line) (hd : d = ',' ∨ d = '\x7d')
    (hmore : d = ',' → ∀ c₁ : Cursor, c₁.rest = after → c₁.set = .line →
      Parses (importListAfter fuel (t.under (ms.map PathMarker.segment) :: acc)) c₁ trees more)
    (hlast : d = '\x7d' → after = more ∧
      trees = (t.under (ms.map PathMarker.segment) :: acc).reverse) :
    Parses (importListAfter (fuel + 1) acc) c trees more := by
  have hend : TreeEnds (d :: after) := treeEnds_punct (by rcases hd with rfl | rfl <;> simp) after
  rw [importListAfter]
  refine hskip.bind fun c₁ hr₁ hs₁ => ?_
  obtain ⟨k, w, rest, ha, -, hw⟩ := ahead_item ms ht hend hgap
  refine ((ha.at hr₁ (hs₁.trans hset)).declines_text_of_ne (s := "\x7d") hw).optional.bind
    fun c₂ hr₂ hs₂ => ?_
  simp only [Option.isSome_none, Bool.false_eq_true, if_false]
  have hset₂ : c₂.set = .line := hs₂.trans (hs₁.trans hset)
  refine (parses_item ms ht hread hfuel hgap (hr₂.trans hr₁) hset₂ hend).bind fun c₃ hr₃ hs₃ => ?_
  have hpunct : Ahead c₃.set c₃.rest .symbol [d] after :=
    (ahead_plainSymbol (by rcases hd with rfl | rfl <;> decide) after).at hr₃ (hs₃.trans hset₂)
  refine (parses_skipLineBreaks_none hpunct (by decide)).bind fun c₄ hr₄ hs₄ => ?_
  have hset₄ : c₄.set = .line := hs₄.trans (hs₃.trans hset₂)
  rcases hd with rfl | rfl
  · -- a comma: the next round
    obtain ⟨tok, hcomma⟩ := (hpunct.at hr₄ hs₄).parses_text (s := ",") rfl
    refine hcomma.optional.bind fun c₅ hr₅ hs₅ => ?_
    simp only [Option.isNone_some, Bool.false_eq_true, if_false]
    exact hmore rfl c₅ hr₅ (hs₅.trans hset₄)
  · -- the closing brace ends the list
    obtain ⟨rfl, rfl⟩ := hlast rfl
    refine ((hpunct.at hr₄ hs₄).declines_text_of_ne (s := ",") (by decide)).optional.bind
      fun c₅ hr₅ hs₅ => ?_
    simp only [Option.isNone_none, if_true]
    refine (parses_skipLineBreaks_none ((hpunct.at hr₄ hs₄).at hr₅ hs₅) (by decide)).bind
      fun c₆ hr₆ hs₆ => ?_
    obtain ⟨tok, hclose⟩ := (((hpunct.at hr₄ hs₄).at hr₅ hs₅).at hr₆ hs₆).parses_text
      (s := "\x7d") rfl
    refine hclose.commit.bind fun c₇ hr₇ _ => ?_
    exact hr₇ ▸ parses_pure _ _

/-- Items on one line, after spaces, up to and including the closing brace: each round reads
one item, and the comma after it leads to the next. -/
theorem parses_inlineItems : ∀ (items : ItemsText) (acc : List ImportTree) (fuel : Nat)
    (gap more : List Char) (c : Cursor), items.wellFormed = true → items.Readable →
    items.depth ≤ fuel → Text.Spaces gap →
    c.rest = gap ++ (items.inlineSpelling.toList ++ '\x7d' :: more) → c.set = .line →
    Parses (importListAfter fuel acc) c (acc.reverse ++ items.trees) more
  | .nil, acc, fuel, gap, more, c, _, _, hfuel, hgap, hc, hset => by
    obtain ⟨f, rfl⟩ : ∃ f, fuel = f + 1 := ⟨fuel - 1, by simp [ItemsText.depth] at hfuel; omega⟩
    have hc' : c.rest = gap ++ (['\x7d'] ++ more) := by simpa [ItemsText.inlineSpelling] using hc
    have ha := (Ahead.spaced (ahead_plainSymbol (c := '\x7d') (by decide) more) hgap
      (head_not_blank (by decide) _)).at hc' hset
    have hskip := parses_skipLineBreaks_none ha (by decide)
    rw [hc'] at hskip
    have h : Parses (importListAfter (f + 1) acc) c acc.reverse more :=
      parses_listClose (by simpa using hskip) hgap hset
    simpa [ItemsText.trees] using h
  | .cons ms t rest, acc, fuel, gap, more, c, hwf, hread, hfuel, hgap, hc, hset => by
    obtain ⟨f, rfl⟩ : ∃ f, fuel = f + 1 := ⟨fuel - 1, by simp [ItemsText.depth] at hfuel; omega⟩
    simp only [ItemsText.wellFormed, Bool.and_eq_true] at hwf
    have hfuel' : t.depth + 1 ≤ f ∧ rest.depth ≤ f := by
      simp only [ItemsText.depth] at hfuel
      omega
    rw [ItemsText.inlineSpelling_cons] at hc
    simp only [List.append_assoc] at hc
    -- after the item stands a comma when more items follow, the closing brace otherwise
    obtain ⟨d, after, hafter, hd, hmore, hlast⟩ : ∃ d after,
        rest.inlineRest.toList ++ '\x7d' :: more = d :: after ∧ (d = ',' ∨ d = '\x7d') ∧
        (d = ',' → ∀ c₁ : Cursor, c₁.rest = after → c₁.set = .line →
          Parses (importListAfter f (t.under (ms.map PathMarker.segment) :: acc)) c₁
            (acc.reverse ++ (ItemsText.cons ms t rest).trees) more) ∧
        (d = '\x7d' → after = more ∧ acc.reverse ++ (ItemsText.cons ms t rest).trees =
          (t.under (ms.map PathMarker.segment) :: acc).reverse) := by
      cases rest with
      | nil =>
        refine ⟨'\x7d', more, by simp [ItemsText.inlineRest_nil], .inr rfl,
          fun h => absurd h (by decide), ?_⟩
        intro _
        simp [ItemsText.trees]
      | cons ms' t' rest' =>
        refine ⟨',', _, by rw [ItemsText.inlineRest_cons]; rfl, .inl rfl, fun _ c₁ hr₁ hs₁ => ?_,
          fun h => absurd h (by decide)⟩
        have h := parses_inlineItems (.cons ms' t' rest') (t.under (ms.map PathMarker.segment) :: acc)
          f [' '] more c₁ hwf.2 hread.2 hfuel'.2
          (by decide) (by rw [hr₁]; rfl) hs₁
        simpa [ItemsText.trees] using h
    rw [hafter] at hc
    obtain ⟨k, w, r, ha, hk, -⟩ := ahead_item ms hwf.1
      (treeEnds_punct (by rcases hd with rfl | rfl <;> simp) after : TreeEnds (d :: after)) hgap
    have hskip := parses_skipLineBreaks_none (ha.at hc hset) hk
    rw [hc] at hskip
    exact parses_listRound hskip hwf.1 hread.1 hfuel'.1 hgap hset hd hmore hlast

/-- Items one per line, each after a line break and indented, each with its comma, up to the
line break and the closing brace. -/
theorem parses_lineItems : ∀ (items : ItemsText) (acc : List ImportTree) (fuel : Nat)
    (more : List Char) (c : Cursor), items.wellFormed = true → items.Readable →
    items.depth ≤ fuel → c.rest = items.linesSpelling.toList ++ '\n' :: '\x7d' :: more →
    c.set = .line → Parses (importListAfter fuel acc) c (acc.reverse ++ items.trees) more
  | .nil, acc, fuel, more, c, _, _, hfuel, hc, hset => by
    obtain ⟨f, rfl⟩ : ∃ f, fuel = f + 1 := ⟨fuel - 1, by simp [ItemsText.depth] at hfuel; omega⟩
    have hskip := parses_skipLineBreaks_one (by simpa [ItemsText.linesSpelling] using hc) hset
      ⟨_, _, _, ahead_plainSymbol (c := '\x7d') (by decide) more, by decide⟩
    have h : Parses (importListAfter (f + 1) acc) c acc.reverse more :=
      parses_listClose (by simpa using hskip) (by decide : Text.Spaces []) hset
    simpa [ItemsText.trees] using h
  | .cons ms t rest, acc, fuel, more, c, hwf, hread, hfuel, hc, hset => by
    obtain ⟨f, rfl⟩ : ∃ f, fuel = f + 1 := ⟨fuel - 1, by simp [ItemsText.depth] at hfuel; omega⟩
    simp only [ItemsText.wellFormed, Bool.and_eq_true] at hwf
    have hfuel' : t.depth + 1 ≤ f ∧ rest.depth ≤ f := by
      simp only [ItemsText.depth] at hfuel
      omega
    rw [ItemsText.linesSpelling_cons] at hc
    simp only [List.cons_append, List.append_assoc] at hc
    -- the line break in front of the item is skipped, its indentation is not
    obtain ⟨k, w, r, ha, hk, -⟩ := ahead_item ms hwf.1
      (treeEnds_punct (.inl rfl) (rest.linesSpelling.toList ++ '\n' :: '\x7d' :: more))
      (by decide : Text.Spaces [' ', ' '])
    have hskip := parses_skipLineBreaks_one (hc.trans (by simp)) hset ⟨k, w, r, ha, hk⟩
    refine parses_listRound hskip hwf.1 hread.1 hfuel'.1 (by decide) hset (.inl rfl)
      (fun _ c₁ hr₁ hs₁ => ?_) (fun h => absurd h (by decide))
    have h := parses_lineItems rest (t.under (ms.map PathMarker.segment) :: acc) f more c₁ hwf.2
      hread.2 hfuel'.2 hr₁ hs₁
    simpa [ItemsText.trees] using h

/-- An opening brace, then the items of a list read by `importList`. -/
theorem parses_listOpen {gap body : List Char} {trees : List ImportTree} {lead : List String}
    {fuel : Nat} (hgap : Text.Spaces gap) (hc : c.rest = gap ++ ('\x7b' :: body))
    (hset : c.set = .line)
    (hlist : ∀ c₁ : Cursor, c₁.rest = body → c₁.set = .line →
      Parses (importList fuel) c₁ trees more) :
    Parses (importTreeAfter (fuel + 1) lead) c ((ImportTree.list trees).withLead lead) more := by
  rw [importTreeAfter]
  obtain ⟨tok, hopen⟩ := ((Ahead.spaced (ahead_plainSymbol (c := '\x7b') (by decide) body) hgap
    (head_not_blank (by decide) _)).at hc hset).parses_text (s := "\x7b") rfl
  refine hopen.optional.bind fun c₁ hr₁ hs₁ => ?_
  simp only [Option.isSome_some, if_true]
  exact (hlist c₁ hr₁ (hs₁.trans hset)).bind fun c₂ hr₂ _ => hr₂ ▸ parses_pure _ _

theorem readable_list {layout : ListLayout} {items : ItemsText}
    (hwf : (TreeText.list layout items).wellFormed = true) (hitems : items.Readable) :
    (TreeText.list layout items).Readable := by
  intro fuel lead gap more c hfuel hgap hc hset hend
  obtain ⟨f, rfl⟩ : ∃ f, fuel = f + 2 :=
    ⟨fuel - 2, by simp [TreeText.depth] at hfuel; omega⟩
  have hdepth : items.depth ≤ f := by
    simp only [TreeText.depth] at hfuel
    omega
  simp only [TreeText.wellFormed] at hwf
  simp only [TreeText.under]
  cases layout with
  | inline =>
    refine parses_listOpen hgap (by simpa [TreeText.spelling] using hc) hset fun c₁ hr₁ hs₁ => ?_
    rw [importList]
    simpa using parses_inlineItems items [] f [] more c₁ hwf hitems hdepth (by decide)
      (by simpa using hr₁) hs₁
  | lines =>
    refine parses_listOpen hgap (by simpa [TreeText.spelling] using hc) hset fun c₁ hr₁ hs₁ => ?_
    rw [importList]
    simpa using parses_lineItems items [] f more c₁ hwf hitems hdepth (by simpa using hr₁) hs₁

mutual

/-- Every well-formed written tree is read as what it means. -/
theorem TreeText.readable : ∀ t : TreeText, t.wellFormed = true → t.Readable
  | .simple _ _ _, h => readable_simple h
  | .wildcard _, h => readable_wildcard h
  | .list _ items, h => readable_list h (ItemsText.readable items h)
  | .path _ _ tail, h => readable_path h
    (TreeText.readable tail (by simp only [TreeText.wellFormed, Bool.and_eq_true] at h; exact h.2))

theorem ItemsText.readable : ∀ items : ItemsText, items.wellFormed = true → items.Readable
  | .nil, _ => trivial
  | .cons _ t rest, h => by
    simp only [ItemsText.wellFormed, Bool.and_eq_true] at h
    exact ⟨TreeText.readable t h.1, ItemsText.readable rest h.2⟩

end

end Grammar

end ShaderLink
