import ShaderLink.Proofs.Parse.Forward

/-!
# What the lexer reads first

Reading forward needs the other direction of the lexer's shapes: given a lexeme at the front of
a text, the scan returns its kind and length. A scan tries its rules in order, so each fact
below says which rules decline on the lexeme's first characters and which one matches it,
and what may follow the lexeme without extending it: a word ends where no identifier
character follows, a slash where no second slash does.

Identifiers are `Text.isWord`, numerals `Text.isNumeral`. No identifier character is a blank:
outside ASCII this is a check of the identifier table against the few blanks there
(`Text.isIdentStart_isBlank`).

The line set's lexemes of directive lines are then tokens ahead (`Parser.Ahead`), on their own
or after a run of spaces.
-/

namespace ShaderLink

namespace Text

/-- An identifier as the lexer reads it: an identifier-start character and continuing ones, or
an underscore and at least one continuing character. -/
def isWord : List Char → Bool
  | [] => false
  | '_' :: r => !r.isEmpty && r.all isIdentContinue
  | c :: r => isIdentStart c && r.all isIdentContinue

/-- Spaces only, possibly none: what may stand between two tokens of a directive line. -/
def Spaces (gap : List Char) : Prop := ∀ c ∈ gap, c = ' '

-- decided over the list, not over every character
instance (gap : List Char) : Decidable (Spaces gap) :=
  List.decidableBAll (· = ' ') gap

/-- A decimal numeral: one or more ASCII digits. -/
def isNumeral (w : List Char) : Bool := !w.isEmpty && w.all Lexer.isDigit

/-- No range of the table meets `n`. -/
theorem inRanges_eq_false {table : Array (Nat × Nat)} {n : Nat}
    (h : ∀ r ∈ table.toList, n < r.1 ∨ r.2 < n) : inRanges table n = false := by
  unfold inRanges
  rw [Array.any_eq_false]
  intro i hi
  have := h table[i] (by simp)
  simp only [Bool.and_eq_true, decide_eq_true_eq, not_and, Nat.not_le]
  omega

/-- The blanks outside ASCII, as closed ranges of code points. -/
def wideBlanks : List (Nat × Nat) :=
  [(0x85, 0x85), (0xA0, 0xA0), (0x1680, 0x1680), (0x2000, 0x200A), (0x2028, 0x2029),
    (0x202F, 0x202F), (0x205F, 0x205F), (0x3000, 0x3000)]

theorem identStartRanges_apart :
    ∀ r ∈ identStartRanges.toList, ∀ b ∈ wideBlanks, r.2 < b.1 ∨ b.2 < r.1 := by
  decide +kernel

theorem wideBlanks_of_isBlank {c : Char} (h : isBlank c = true) (hc : 0x80 ≤ c.toNat) :
    ∃ b ∈ wideBlanks, b.1 ≤ c.toNat ∧ c.toNat ≤ b.2 := by
  simp only [isBlank, Bool.or_eq_true, Bool.and_eq_true, decide_eq_true_eq, beq_iff_eq] at h
  simp only [wideBlanks, List.mem_cons, List.not_mem_nil, or_false, exists_eq_or_imp,
    exists_eq_left]
  omega

/-- The code point of an ASCII letter. -/
theorem isAlpha_toNat {c : Char} (h : c.isAlpha = true) :
    (65 ≤ c.toNat ∧ c.toNat ≤ 90) ∨ (97 ≤ c.toNat ∧ c.toNat ≤ 122) := by
  -- unfolded by `change`, which generates no equation lemmas for the library's definitions
  change (decide (c.val ≥ 'A'.val ∧ c.val ≤ 'Z'.val) ||
    (decide (c.val ≥ 'a'.val) && decide (c.val ≤ 'z'.val))) = true at h
  simp only [Bool.or_eq_true, Bool.and_eq_true, decide_eq_true_eq, UInt32.le_iff_toNat_le] at h
  have : c.toNat = c.val.toNat := rfl
  have : 'Z'.val.toNat = 90 := rfl
  have : 'z'.val.toNat = 122 := rfl
  have : 'A'.val.toNat = 65 := rfl
  have : 'a'.val.toNat = 97 := rfl
  omega

theorem isIdentStart_isBlank {c : Char} (h : isIdentStart c = true) : isBlank c = false := by
  cases hb : isBlank c
  · rfl
  unfold isIdentStart at h
  split at h
  · have := isAlpha_toNat h
    simp only [isBlank, Bool.or_eq_true, Bool.and_eq_true, decide_eq_true_eq, beq_iff_eq] at hb
    omega
  · -- outside ASCII, no range of the table meets a blank
    obtain ⟨b, hb, h₁, h₂⟩ := wideBlanks_of_isBlank hb (by omega)
    have := @inRanges_eq_false identStartRanges c.toNat fun r hr => by
      have := identStartRanges_apart r hr b hb
      omega
    simp_all

theorem isDigit_toNat {c : Char} (h : Lexer.isDigit c = true) : 48 ≤ c.toNat ∧ c.toNat ≤ 57 := by
  simp only [Lexer.isDigit, Bool.and_eq_true, decide_eq_true_eq, Char.le_def,
    UInt32.le_iff_toNat_le] at h
  have : c.toNat = c.val.toNat := rfl
  have : '0'.val.toNat = 48 := rfl
  have : '9'.val.toNat = 57 := rfl
  omega

theorem isIdentStart_isDigit {c : Char} (h : isIdentStart c = true) : Lexer.isDigit c = false := by
  cases hd : Lexer.isDigit c
  · rfl
  have := isDigit_toNat hd
  unfold isIdentStart at h
  rw [if_pos (by omega)] at h
  have := isAlpha_toNat h
  omega

theorem isDigit_isBlank {c : Char} (h : Lexer.isDigit c = true) : isBlank c = false := by
  have := isDigit_toNat h
  simp only [isBlank, Bool.or_eq_false_iff, Bool.and_eq_false_iff, decide_eq_false_iff_not,
    beq_eq_false_iff_ne]
  omega

theorem isLineBreak_of_isBlank {c : Char} (h : isBlank c = false) : isLineBreak c = false := by
  cases hl : isLineBreak c
  · rfl
  simp only [isLineBreak, Bool.or_eq_true, beq_iff_eq] at hl
  rcases hl with ((((((rfl | rfl) | rfl) | rfl) | rfl) | rfl) | rfl) <;> exact absurd h (by decide)

end Text

theorem Match.orElse_of_miss {m x : Match} {f : Unit → Match} (hm : m = .miss) (hf : f () = x) :
    m.orElse f = x := by
  subst hm
  exact hf

namespace Lexer

/-! ### The rules, one at a time -/

theorem firstRule_cons_miss {cs : List Char} {k : TokenKind} {m : List Char → Match}
    {rs : List (TokenKind × (List Char → Match))} (h : m cs = .miss) :
    firstRule cs ((k, m) :: rs) = firstRule cs rs := by
  simp [firstRule, h]

theorem firstRule_cons_hit {cs : List Char} {k : TokenKind} {m : List Char → Match}
    {rs : List (TokenKind × (List Char → Match))} {n : Nat} (h : m cs = .hit (n + 1)) :
    firstRule cs ((k, m) :: rs) = .token k (n + 1) := by
  simp [firstRule, h]

theorem run_cons_false {p : Char → Bool} {c : Char} {r : List Char} (h : p c = false) :
    run p (c :: r) = 0 := by
  simp [run, h]

/-- A run over a stretch of matching characters stops where the first one that does not
match follows. -/
theorem run_append {p : Char → Bool} {pre more : List Char} (hpre : ∀ c ∈ pre, p c = true)
    (hmore : ∀ c ∈ more.head?, p c = false) : run p (pre ++ more) = pre.length := by
  induction pre with
  | nil =>
    cases more with
    | nil => rfl
    | cons c r => exact run_cons_false (hmore c rfl)
  | cons c r ih =>
    have hc : p c = true := hpre c (by simp)
    simp only [run, List.cons_append, List.takeWhile_cons, hc, if_true, List.length_cons] at ih ⊢
    rw [ih fun x hx => hpre x (by simp [hx])]

theorem blanks_miss {c : Char} {r : List Char} (hc : Text.isBlank c = false) :
    blanks (c :: r) = .miss := by
  simp [blanks, run_cons_false (p := Text.isBlank) hc]

theorem lineBlanks_miss {c : Char} {r : List Char} (hc : Text.isBlank c = false) :
    lineBlanks (c :: r) = .miss := by
  have : run (fun c => Text.isBlank c && !Text.isLineBreak c) (c :: r) = 0 :=
    run_cons_false (by simp [hc])
  simp [lineBlanks, this]

theorem lineComment_miss {c : Char} {r : List Char} (hc : c ≠ '/') :
    lineComment (c :: r) = .miss := by
  simp [lineComment, hc]

theorem comment_miss {c : Char} {r : List Char} (hc : c ≠ '/') : comment (c :: r) = .miss := by
  simp [comment, lineComment, blockComment, hc, Match.orElse]

theorem directive_miss {c : Char} {r : List Char} (hc : c ≠ '#') :
    directive (c :: r) = .miss := by
  simp [directive, hc]

theorem lineBreak_miss {c : Char} {r : List Char} (hc : Text.isBlank c = false) :
    lineBreak (c :: r) = .miss := by
  have : c ≠ '\r' := by rintro rfl; exact absurd hc (by decide)
  simp [lineBreak, this, Text.isLineBreak_of_isBlank hc]

theorem relativeMarker_miss {c : Char} {r : List Char} (hc : c ≠ '.') :
    relativeMarker (c :: r) = .miss := by
  simp [relativeMarker, hc]

theorem number_miss {c : Char} {r : List Char} (hc : isDigit c = false) (hdot : c ≠ '.') :
    number (c :: r) = .miss := by
  have h0 : c ≠ '0' := by rintro rfl; exact absurd hc (by decide)
  simp [number, hexNumber, decimalNumber, h0, hdot, Match.orElse, run_cons_false hc]

theorem ident_miss {c : Char} {r : List Char} (hc : Text.isIdentStart c = false) (hu : c ≠ '_') :
    ident (c :: r) = .miss := by
  simp [ident, hc]

theorem lineSymbol_one {c : Char} {r : List Char} (hc : c ∈ lineSymbols) (hcolon : c ≠ ':') :
    lineSymbol (c :: r) = .hit 1 := by
  simp [lineSymbol, oneOf, hcolon, hc]

/-- An identifier is read whole, up to a character that cannot continue it. -/
theorem ident_word {w more : List Char} (hw : Text.isWord w = true)
    (hmore : ∀ c ∈ more.head?, Text.isIdentContinue c = false) :
    ident (w ++ more) = .hit w.length := by
  cases w with
  | nil => simp [Text.isWord] at hw
  | cons c r =>
    by_cases hu : c = '_'
    · subst hu
      simp only [Text.isWord, Bool.and_eq_true, Bool.not_eq_true', List.isEmpty_eq_false_iff,
        List.all_eq_true] at hw
      obtain ⟨hne, hall⟩ := hw
      have hrun : run Text.isIdentContinue (r ++ more) = r.length := run_append hall hmore
      obtain ⟨d, r', rfl⟩ := List.exists_cons_of_ne_nil hne
      simp only [List.cons_append, ident]
      rw [← List.cons_append, hrun]
      simp [Nat.add_comm]
    · have hw' : Text.isIdentStart c = true ∧ ∀ x ∈ r, Text.isIdentContinue x = true := by
        simpa [Text.isWord, hu] using hw
      simp [ident, hw'.1, run_append hw'.2 hmore, Nat.add_comm]

theorem isDigit_ne {c : Char} (h : isDigit c = true) : c ≠ '.' ∧ c ≠ 'x' ∧ c ≠ 'X' := by
  refine ⟨?_, ?_, ?_⟩ <;> (rintro rfl; exact absurd h (by decide))

theorem hexNumber_miss {d x : Char} {r : List Char} (hx : x ≠ 'x' ∧ x ≠ 'X') :
    hexNumber (d :: x :: r) = .miss := by
  unfold hexNumber
  split
  · next x' r' heq =>
    simp only [List.cons.injEq] at heq
    obtain ⟨-, rfl, -⟩ := heq
    simp [hx.1, hx.2]
  · rfl

theorem decimalTail_punct {c : Char} {r : List Char} (hc : c = ',' ∨ c = ')') :
    decimalTail (c :: r) = 0 := by
  rcases hc with rfl | rfl <;> rfl

/-- A numeral followed by a comma or a closing parenthesis is read whole as a number: not as
a hexadecimal one, and the reading of `00` before a point declines. -/
theorem number_numeral {w : List Char} {c : Char} {more : List Char}
    (hw : Text.isNumeral w = true) (hc : c = ',' ∨ c = ')') :
    number (w ++ c :: more) = .hit w.length := by
  simp only [Text.isNumeral, Bool.and_eq_true, Bool.not_eq_true', List.isEmpty_eq_false_iff,
    List.all_eq_true] at hw
  obtain ⟨hne, hdigits⟩ := hw
  have hcd : isDigit c = false ∧ c ≠ '.' ∧ c ≠ 'x' ∧ c ≠ 'X' := by
    rcases hc with rfl | rfl <;> decide
  have hrun : ∀ pre, (∀ x ∈ pre, isDigit x = true) → run isDigit (pre ++ c :: more) = pre.length :=
    fun pre h => run_append h (by simpa using hcd.1)
  obtain ⟨d, ds, rfl⟩ := List.exists_cons_of_ne_nil hne
  have hd := isDigit_ne (hdigits d (by simp))
  have hhex : hexNumber (d :: ds ++ c :: more) = .miss := by
    cases ds with
    | nil => exact hexNumber_miss hcd.2.2
    | cons e es => exact hexNumber_miss (isDigit_ne (hdigits e (by simp))).2
  simp only [number, hhex, Match.orElse]
  unfold decimalNumber
  apply Match.orElse_of_miss
  · split
    · next r heq =>
      simp only [List.cons_append, List.cons.injEq] at heq
      obtain ⟨rfl, heq⟩ := heq
      cases ds with
      | nil => simp at heq; exact absurd hcd.1 (by rw [heq.1]; decide)
      | cons e es =>
        simp only [List.cons_append, List.cons.injEq] at heq
        obtain ⟨rfl, rfl⟩ := heq
        simp only
        rw [hrun es fun x hx => hdigits x (by simp [hx]), List.drop_left]
        split
        · next r heq => exact absurd (List.cons.inj heq).1 hcd.2.1
        · rfl
    · rfl
  · split
    · next r heq => exact absurd (List.cons.inj heq).1 hd.1
    · rw [hrun _ hdigits]
      simp [decimalTail_punct hc]

end Lexer

/-! ### Scanning the lexemes of directive lines -/

section Scans

variable {w more : List Char}

/-- The rules of the line set that come before words decline on a character that is no
blank, slash, dot or digit. -/
theorem scan_line_of_plain {c : Char} {r : List Char} (hb : Text.isBlank c = false)
    (hs : c ≠ '/') (hd : c ≠ '.') (hn : Lexer.isDigit c = false) :
    scan .line (c :: r) = Lexer.firstRule (c :: r) [(.word, Lexer.ident), (.symbol, Lexer.lineSymbol)] := by
  simp only [scan, Lexer.rules]
  rw [Lexer.firstRule_cons_miss (Lexer.lineBlanks_miss hb),
    Lexer.firstRule_cons_miss (Lexer.lineComment_miss hs),
    Lexer.firstRule_cons_miss (Lexer.lineBreak_miss hb),
    Lexer.firstRule_cons_miss (Lexer.relativeMarker_miss hd),
    Lexer.firstRule_cons_miss (Lexer.number_miss hn hd)]

/-- A word of a directive line, up to a character that cannot continue it. -/
theorem scan_line_word (hw : Text.isWord w = true)
    (hmore : ∀ c ∈ more.head?, Text.isIdentContinue c = false) :
    scan .line (w ++ more) = .token .word w.length := by
  obtain ⟨c, r, rfl⟩ : ∃ c r, w = c :: r := by
    cases w with
    | nil => simp [Text.isWord] at hw
    | cons c r => exact ⟨c, r, rfl⟩
  have hstart : c = '_' ∨ Text.isIdentStart c = true := by
    by_cases hu : c = '_'
    · exact .inl hu
    · have : Text.isIdentStart c = true ∧ ∀ x ∈ r, Text.isIdentContinue x = true := by
        simpa [Text.isWord, hu] using hw
      exact .inr this.1
  have hplain : Text.isBlank c = false ∧ c ≠ '/' ∧ c ≠ '.' ∧ Lexer.isDigit c = false := by
    rcases hstart with rfl | h
    · decide
    · refine ⟨Text.isIdentStart_isBlank h, ?_, ?_, Text.isIdentStart_isDigit h⟩ <;>
        · rintro rfl; exact absurd h (by decide)
  obtain ⟨hb, hs, hd, hn⟩ := hplain
  rw [List.cons_append, scan_line_of_plain hb hs hd hn, ← List.cons_append,
    Lexer.firstRule_cons_hit (Lexer.ident_word hw hmore)]
  rfl

/-- The symbols that stand for themselves whatever follows. -/
def plainSymbols : List Char := ['\x7b', '\x7d', ',', '*', '(', ')', ';']

theorem scan_line_plainSymbol {c : Char} (hc : c ∈ plainSymbols) (r : List Char) :
    scan .line (c :: r) = .token .symbol 1 := by
  have hplain : Text.isBlank c = false ∧ c ≠ '/' ∧ c ≠ '.' ∧ Lexer.isDigit c = false ∧
      Text.isIdentStart c = false ∧ c ≠ '_' ∧ c ∈ Lexer.lineSymbols ∧ c ≠ ':' := by
    simp only [plainSymbols, List.mem_cons, List.not_mem_nil, or_false] at hc
    rcases hc with rfl | rfl | rfl | rfl | rfl | rfl | rfl <;> decide
  obtain ⟨hb, hs, hd, hn, hi, hu, hsym, hcolon⟩ := hplain
  rw [scan_line_of_plain hb hs hd hn, Lexer.firstRule_cons_miss (Lexer.ident_miss hi hu),
    Lexer.firstRule_cons_hit (Lexer.lineSymbol_one hsym hcolon)]

theorem scan_line_colons (r : List Char) : scan .line (':' :: ':' :: r) = .token .symbol 2 := by
  rw [scan_line_of_plain (by decide) (by decide) (by decide) (by decide),
    Lexer.firstRule_cons_miss (Lexer.ident_miss (by decide) (by decide))]
  rfl

/-- A slash is a symbol unless a second one makes a comment. -/
theorem scan_line_slash (hmore : more.head? ≠ some '/') :
    scan .line ('/' :: more) = .token .symbol 1 := by
  have hcomment : Lexer.lineComment ('/' :: more) = .miss := by
    cases more with
    | nil => rfl
    | cons c r => simp_all [Lexer.lineComment]
  simp only [scan, Lexer.rules]
  rw [Lexer.firstRule_cons_miss (Lexer.lineBlanks_miss (by decide)),
    Lexer.firstRule_cons_miss hcomment,
    Lexer.firstRule_cons_miss (Lexer.lineBreak_miss (by decide)),
    Lexer.firstRule_cons_miss (Lexer.relativeMarker_miss (by decide)),
    Lexer.firstRule_cons_miss (Lexer.number_miss (by decide) (by decide)),
    Lexer.firstRule_cons_miss (Lexer.ident_miss (by decide) (by decide)),
    Lexer.firstRule_cons_hit (Lexer.lineSymbol_one (by decide) (by decide))]

/-- A dot is a symbol unless it starts a relative marker or a number. -/
theorem scan_line_dot (hmore : ∀ c ∈ more.head?, c ≠ '/' ∧ c ≠ '.' ∧ Lexer.isDigit c = false) :
    scan .line ('.' :: more) = .token .symbol 1 := by
  have hmarker : Lexer.relativeMarker ('.' :: more) = .miss := by
    rcases more with _ | ⟨c, _ | ⟨d, r⟩⟩ <;> simp_all [Lexer.relativeMarker]
  have hnumber : Lexer.number ('.' :: more) = .miss := by
    cases more with
    | nil => rfl
    | cons c r =>
      simp [Lexer.number, Lexer.hexNumber, Lexer.decimalNumber, Match.orElse,
        Lexer.run_cons_false (hmore c rfl).2.2]
  simp only [scan, Lexer.rules]
  rw [Lexer.firstRule_cons_miss (Lexer.lineBlanks_miss (by decide)),
    Lexer.firstRule_cons_miss (Lexer.lineComment_miss (by decide)),
    Lexer.firstRule_cons_miss (Lexer.lineBreak_miss (by decide)),
    Lexer.firstRule_cons_miss hmarker, Lexer.firstRule_cons_miss hnumber,
    Lexer.firstRule_cons_miss (Lexer.ident_miss (by decide) (by decide)),
    Lexer.firstRule_cons_hit (Lexer.lineSymbol_one (by decide) (by decide))]

theorem scan_line_here (r : List Char) : scan .line ('.' :: '/' :: r) = .token .relativePrefix 2 :=
  rfl

theorem scan_line_up (r : List Char) :
    scan .line ('.' :: '.' :: '/' :: r) = .token .relativePrefix 3 :=
  rfl

theorem scan_line_eol (r : List Char) : scan .line ('\n' :: r) = .token .eol 1 := rfl

/-- A run of spaces is one blank token, up to the first character that is no blank. -/
theorem scan_line_spaces {gap : List Char} (hgap : gap ≠ []) (hspaces : ∀ c ∈ gap, c = ' ')
    (hmore : ∀ c ∈ more.head?, Text.isBlank c = false) :
    scan .line (gap ++ more) = .token .space gap.length := by
  obtain ⟨c, r, rfl⟩ := List.exists_cons_of_ne_nil hgap
  have hrun : Lexer.run (fun c => Text.isBlank c && !Text.isLineBreak c) ((c :: r) ++ more) =
      (c :: r).length :=
    Lexer.run_append (fun x hx => by rw [hspaces x hx]; rfl) fun x hx => by simp [hmore x hx]
  simp only [scan, Lexer.rules, List.cons_append]
  rw [Lexer.firstRule_cons_hit (n := r.length) (by simp only [Lexer.lineBlanks, ← List.cons_append, hrun]; rfl)]
  rfl

/-- A numeral of a directive line, before a comma or a closing parenthesis. -/
theorem scan_line_numeral {c : Char} (hw : Text.isNumeral w = true) (hc : c = ',' ∨ c = ')') :
    scan .line (w ++ c :: more) = .token .number w.length := by
  obtain ⟨d, ds, rfl⟩ : ∃ d ds, w = d :: ds := by
    cases w with
    | nil => simp [Text.isNumeral] at hw
    | cons d ds => exact ⟨d, ds, rfl⟩
  have hd : Lexer.isDigit d = true := by
    simp only [Text.isNumeral, Bool.and_eq_true, List.all_eq_true] at hw
    exact hw.2 d (by simp)
  have hnum : Lexer.number (d :: ds ++ c :: more) = .hit (d :: ds).length :=
    Lexer.number_numeral hw hc
  rw [List.length_cons] at hnum
  simp only [scan, Lexer.rules, List.cons_append]
  rw [Lexer.firstRule_cons_miss (Lexer.lineBlanks_miss (Text.isDigit_isBlank hd)),
    Lexer.firstRule_cons_miss (Lexer.lineComment_miss (by rintro rfl; exact absurd hd (by decide))),
    Lexer.firstRule_cons_miss (Lexer.lineBreak_miss (Text.isDigit_isBlank hd)),
    Lexer.firstRule_cons_miss (Lexer.relativeMarker_miss (Lexer.isDigit_ne hd).1),
    ← List.cons_append, Lexer.firstRule_cons_hit hnum]
  rfl

/-- A word of shader code, up to a character that cannot continue it. -/
theorem scan_code_word (hw : Text.isWord w = true)
    (hmore : ∀ c ∈ more.head?, Text.isIdentContinue c = false) :
    scan .code (w ++ more) = .token .word w.length := by
  obtain ⟨c, r, rfl⟩ : ∃ c r, w = c :: r := by
    cases w with
    | nil => simp [Text.isWord] at hw
    | cons c r => exact ⟨c, r, rfl⟩
  have hplain : Text.isBlank c = false ∧ c ≠ '/' ∧ c ≠ '#' ∧ c ≠ '.' ∧
      Lexer.isDigit c = false := by
    by_cases hu : c = '_'
    · subst hu; decide
    · have h : Text.isIdentStart c = true ∧ ∀ x ∈ r, Text.isIdentContinue x = true := by
        simpa [Text.isWord, hu] using hw
      refine ⟨Text.isIdentStart_isBlank h.1, ?_, ?_, ?_, Text.isIdentStart_isDigit h.1⟩ <;>
        · rintro rfl; exact absurd h.1 (by decide)
  obtain ⟨hb, hs, hh, hd, hn⟩ := hplain
  simp only [scan, Lexer.rules, List.cons_append]
  rw [Lexer.firstRule_cons_miss (Lexer.blanks_miss hb),
    Lexer.firstRule_cons_miss (Lexer.comment_miss hs),
    Lexer.firstRule_cons_miss (Lexer.directive_miss hh),
    Lexer.firstRule_cons_miss (Lexer.number_miss hn hd), ← List.cons_append,
    Lexer.firstRule_cons_hit (Lexer.ident_word hw hmore)]
  rfl

/-- A directive of shader code: `#` and a word, up to a character that cannot continue it. -/
theorem scan_code_directive (hw : Text.isWord w = true)
    (hmore : ∀ c ∈ more.head?, Text.isIdentContinue c = false) :
    scan .code ('#' :: (w ++ more)) = .token .directive (w.length + 1) := by
  have hdirective : Lexer.directive ('#' :: (w ++ more)) = .hit (w.length + 1) := by
    simp [Lexer.directive, Lexer.ident_word hw hmore, Match.after, Nat.add_comm]
  simp only [scan, Lexer.rules]
  rw [Lexer.firstRule_cons_miss (Lexer.blanks_miss (by decide)),
    Lexer.firstRule_cons_miss (Lexer.comment_miss (by decide)),
    Lexer.firstRule_cons_hit hdirective]

end Scans

/-! ### Tokens ahead on a directive line -/

namespace Parser

section Ahead

variable {w more : List Char}

theorem ahead_word (hw : Text.isWord w = true)
    (hmore : ∀ c ∈ more.head?, Text.isIdentContinue c = false) :
    Ahead .line (w ++ more) .word w more :=
  ahead_of_scan rfl (scan_line_word hw hmore)

theorem ahead_numeral {c : Char} (hw : Text.isNumeral w = true) (hc : c = ',' ∨ c = ')') :
    Ahead .line (w ++ c :: more) .number w (c :: more) :=
  ahead_of_scan rfl (scan_line_numeral hw hc)

theorem ahead_plainSymbol {c : Char} (hc : c ∈ plainSymbols) (more : List Char) :
    Ahead .line (c :: more) .symbol [c] more :=
  ahead_of_scan rfl (scan_line_plainSymbol hc more)

theorem ahead_colons (more : List Char) : Ahead .line (':' :: ':' :: more) .symbol [':', ':'] more :=
  ahead_of_scan rfl (scan_line_colons more)

theorem ahead_slash (hmore : more.head? ≠ some '/') : Ahead .line ('/' :: more) .symbol ['/'] more :=
  ahead_of_scan rfl (scan_line_slash hmore)

theorem ahead_dot (hmore : ∀ c ∈ more.head?, c ≠ '/' ∧ c ≠ '.' ∧ Lexer.isDigit c = false) :
    Ahead .line ('.' :: more) .symbol ['.'] more :=
  ahead_of_scan rfl (scan_line_dot hmore)

theorem ahead_eol (more : List Char) : Ahead .line ('\n' :: more) .eol ['\n'] more :=
  ahead_of_scan rfl (scan_line_eol more)

theorem ahead_marker_here (more : List Char) :
    Ahead .line ('.' :: '/' :: more) .relativePrefix ['.', '/'] more :=
  ahead_of_scan rfl (scan_line_here more)

theorem ahead_marker_up (more : List Char) :
    Ahead .line ('.' :: '.' :: '/' :: more) .relativePrefix ['.', '.', '/'] more :=
  ahead_of_scan rfl (scan_line_up more)

/-- The side condition of `Ahead.spaced` for a token that starts with no blank. -/
theorem head_not_blank {c : Char} (hc : Text.isBlank c = false) (w : List Char) :
    ∀ x ∈ (c :: w).head?, Text.isBlank x = false := by
  rintro x ⟨⟩
  exact hc

/-- Spaces in front of a token, possibly none, are skipped on the way to it. -/
theorem Ahead.spaced {k : TokenKind} {rest gap : List Char} (h : Ahead .line (w ++ rest) k w rest)
    (hgap : Text.Spaces gap) (hhead : ∀ c ∈ w.head?, Text.isBlank c = false) :
    Ahead .line (gap ++ (w ++ rest)) k w rest := by
  by_cases hne : gap = []
  · subst hne
    simpa using h
  · refine ⟨h.1, h.2.1, gap, by simp, .inr ⟨.space, scan_line_spaces hne hgap ?_, rfl⟩⟩
    obtain ⟨c, w', rfl⟩ := List.exists_cons_of_ne_nil (List.ne_nil_of_length_pos (scan_token_pos h.2.1).1)
    simpa using hhead c rfl

end Ahead

end Parser

end ShaderLink
