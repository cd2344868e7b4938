import ShaderLink.Proofs.Parse.Items
import ShaderLink.Proofs.Text.Slicing

/-!
# Repetitions that always advance

The grammar repeats a rule with `many`, and the rest of a separated list with `sepTailFor`,
giving each repetition one more round of fuel than there are characters left. The fuel is
never what ends a repetition when each success of the repeated rule, or of the separator,
reads at least one byte: when the rule *advances* (`Parser.Advances`). Each round then leaves
fewer characters, so the repetition stops where its rule declines, and any larger fuel gives
the very same outcome (`Parser.manyFor_fuel_eq`, `Parser.sepTailFor_fuel_eq`).

No token is empty (`Parser.lexOne_pos_lt`), so a rule that starts with a token advances as long
as the rest of it reads forward (`Parser.Advances.bind`). Every rule the grammar repeats is
such a rule (`Grammar.repetitions`): the markers and line breaks of import lines, the
separators of arguments and paths, the segments of a reference, attributes, top-level items,
and the tokens of a listing.
-/

namespace ShaderLink

namespace Cursor

/-- Of two cursors aligned in one text, the later one's rest is a part of the earlier one's,
after the bytes between them. -/
theorem Aligned.rest_eq_append {t : List Char} {c c' : Cursor} (hc : c.Aligned t)
    (hc' : c'.Aligned t) (hle : c.pos ≤ c'.pos) :
    ∃ mid, c.rest = mid ++ c'.rest ∧ Text.byteSize mid = c'.pos - c.pos := by
  obtain ⟨pre, ht, hpos⟩ := hc
  obtain ⟨pre', ht', hpos'⟩ := hc'
  obtain ⟨mid, rfl⟩ := Text.prefix_of_byteSize_le ht ht' (by omega)
  refine ⟨mid, List.append_cancel_left (ht.symm.trans (ht'.trans (List.append_assoc _ _ _))), ?_⟩
  rw [Text.byteSize_append] at hpos'
  omega

theorem Aligned.rest_length_le {t : List Char} {c c' : Cursor} (hc : c.Aligned t)
    (hc' : c'.Aligned t) (hle : c.pos ≤ c'.pos) : c'.rest.length ≤ c.rest.length := by
  obtain ⟨mid, hrest, -⟩ := hc.rest_eq_append hc' hle
  rw [hrest, List.length_append]
  omega

/-- Of two cursors aligned in one text, the later one has fewer characters left. -/
theorem Aligned.rest_length_lt {t : List Char} {c c' : Cursor} (hc : c.Aligned t)
    (hc' : c'.Aligned t) (hlt : c.pos < c'.pos) : c'.rest.length < c.rest.length := by
  obtain ⟨mid, hrest, hsize⟩ := hc.rest_eq_append hc' (Nat.le_of_lt hlt)
  -- the bytes between the two cursors are at least one character
  have hmid : mid ≠ [] := by
    rintro rfl
    simp only [Text.byteSize_nil] at hsize
    omega
  rw [hrest, List.length_append]
  have := List.length_pos_of_ne_nil hmid
  omega

end Cursor

namespace Parser

variable {α β : Type} {t : List Char}

/-- A rule advances through `t`: it reads forward, and each success reads at least one byte. -/
def Advances (t : List Char) (p : Parser α) : Prop := Reads t p fun lo hi _ => lo < hi

theorem Advances.moves {p : Parser α} (hp : Advances t p) : Moves t p := Reads.moves hp

/-- Each success of an advancing rule leaves fewer characters to read. -/
theorem Advances.rest_length_lt {p : Parser α} (hp : Advances t p) {budget : Nat}
    {c c' : Cursor} {a : α} (hc : c.Aligned t) (hrun : p budget c = .ok a c') :
    c'.Aligned t ∧ c'.rest.length < c.rest.length := by
  obtain ⟨hc', -, hlt⟩ := hp hc hrun
  exact ⟨hc', hc.rest_length_lt hc' hlt⟩

/-! ### Rules that advance -/

/-- No token is empty: reading one moves the cursor on by at least one byte. -/
theorem lexOne_pos_lt {budget : Nat} {c c' : Cursor} {tok : Token}
    (h : lexOne budget c = .ok tok c') : c.pos < c'.pos := by
  simp only [lexOne] at h
  split at h
  · cases h
  · split at h
    · cases h
    · cases h
    · next k n hs =>
      cases h
      obtain ⟨hn, hne⟩ := scan_token_pos hs
      obtain ⟨x, xs, hx⟩ := List.exists_cons_of_ne_nil hne
      obtain ⟨m, rfl⟩ : ∃ m, n = m + 1 := ⟨n - 1, by omega⟩
      simp only [hx, List.take_succ_cons, Text.byteSize_cons]
      have := Char.utf8Size_pos x
      omega

theorem advances_anyToken : Advances t anyToken := by
  intro budget c c' tok hc hrun
  change anyTokenFrom budget c = .ok tok c' at hrun
  rw [anyTokenFrom] at hrun
  split at hrun
  · next tok₁ c₁ hlex =>
    have hlt := lexOne_pos_lt hlex
    obtain ⟨hc₁, -, -⟩ := reads_lexOne hc hlex
    split at hrun
    · -- a skipped token first: the cursor is already past it
      obtain ⟨hc', hle, -⟩ := reads_anyTokenFrom hc₁ hrun
      exact ⟨hc', by omega, by omega⟩
    · cases hrun
      exact ⟨hc₁, Nat.le_of_lt hlt, hlt⟩
  · cases hrun

theorem advances_kind (k : TokenKind) : Advances t (kind k) := reads_verify advances_anyToken

theorem advances_text (s : String) : Advances t (text s) := reads_verify advances_anyToken

/-- A sequence advances when its first rule does and the rest reads forward. -/
theorem Advances.bind {p : Parser α} {f : α → Parser β} (hp : Advances t p)
    (hf : ∀ a, Moves t (f a)) : Advances t (p >>= f) :=
  (reads_bind hp hf).weaken fun _ _ _ _ ⟨_, _, _, hle, hlt, _⟩ => Nat.lt_of_lt_of_le hlt hle

/-- A sequence advances when its first rule reads forward and the rest advances. -/
theorem Moves.bind_advances {p : Parser α} {f : α → Parser β} (hp : Moves t p)
    (hf : ∀ a, Advances t (f a)) : Advances t (p >>= f) :=
  (reads_bind hp hf).weaken fun _ _ _ _ ⟨_, _, hle, _, _, hlt⟩ => Nat.lt_of_le_of_lt hle hlt

theorem Advances.map {g : α → β} {p : Parser α} (hp : Advances t p) : Advances t (g <$> p) :=
  (reads_map hp).weaken fun _ _ _ _ ⟨_, _, hlt⟩ => hlt

theorem Advances.orElse {p q : Parser α} (hp : Advances t p) (hq : Advances t q) :
    Advances t (p.orElse q) :=
  reads_orElse hp hq

/-- The span of an advancing rule runs from its first token to where it stopped. -/
theorem Advances.spanned {p : Parser α} (hp : Advances t p) : Advances t (Parser.spanned p) :=
  (reads_spanned hp).weaken fun _ _ _ _ ⟨hspan, hstop, hlt⟩ => by
    have := hspan.lo_le
    omega

/-! ### Repetitions that fuel never cuts short -/

/-- **Enough fuel.** A repetition of an advancing rule, from an aligned cursor, comes out the
same with any fuel beyond the characters left: it ends where the rule declines. -/
theorem manyFor_fuel_eq {p : Parser α} (hp : Advances t p) :
    ∀ {n m budget : Nat} {c : Cursor}, c.Aligned t → c.rest.length < n → c.rest.length < m →
      manyFor p n budget c = manyFor p m budget c
  | 0, _, _, _, _, hn, _ => absurd hn (Nat.not_lt_zero _)
  | _ + 1, 0, _, _, _, _, hm => absurd hm (Nat.not_lt_zero _)
  | n + 1, m + 1, budget, c, hc, hn, hm => by
    simp only [manyFor]
    cases hrun : p budget c with
    | ok a c₁ =>
      -- the rule read a character, so one round less is still enough
      obtain ⟨hc₁, hlt⟩ := hp.rest_length_lt hc hrun
      dsimp only
      rw [manyFor_fuel_eq hp (n := n) (m := m) hc₁ (by omega) (by omega)]
    | error f c₁ => rfl

/-- `many` repeats an advancing rule until it declines: any fuel beyond the characters left
gives what it gives. -/
theorem many_eq_manyFor {p : Parser α} (hp : Advances t p) {n budget : Nat} {c : Cursor}
    (hc : c.Aligned t) (hn : c.rest.length < n) : many p budget c = manyFor p n budget c :=
  manyFor_fuel_eq hp hc (Nat.lt_succ_self _) hn

/-- **Enough fuel for a separated list.** When the separator advances, the rest of a separated
list comes out the same with any fuel beyond the characters left. -/
theorem sepTailFor_fuel_eq {p : Parser α} {sep : Parser β} (hsep : Advances t sep)
    (hp : Moves t p) :
    ∀ {n m budget : Nat} {c : Cursor}, c.Aligned t → c.rest.length < n → c.rest.length < m →
      sepTailFor p sep n budget c = sepTailFor p sep m budget c
  | 0, _, _, _, _, hn, _ => absurd hn (Nat.not_lt_zero _)
  | _ + 1, 0, _, _, _, _, hm => absurd hm (Nat.not_lt_zero _)
  | n + 1, m + 1, budget, c, hc, hn, hm => by
    simp only [sepTailFor]
    cases hs : sep budget c with
    | error f c₁ => rfl
    | ok b c₁ =>
      obtain ⟨hc₁, hlt⟩ := hsep.rest_length_lt hc hs
      dsimp only
      cases hq : p budget c₁ with
      | error f c₂ => rfl
      | ok a c₂ =>
        -- the separator read a character and the item none back
        obtain ⟨hc₂, hle, -⟩ := hp hc₁ hq
        have := hc₁.rest_length_le hc₂ hle
        dsimp only
        rw [sepTailFor_fuel_eq hsep hp (n := n) (m := m) hc₂ (by omega) (by omega)]

end Parser

namespace Grammar

open ShaderLink.Parser

variable {t : List Char}

/-! ### The rules the grammar repeats -/

theorem advances_moduleLine : Advances t moduleLine :=
  Advances.bind (Advances.spanned (Advances.bind ((advances_text _).orElse (advances_text _))
    fun _ => reads_withSet (moves_bind (reads_commit moves_modulePath) fun _ =>
      moves_bind (reads_commit moves_lineEnd) fun _ => moves_pure _)))
    fun ⟨_, _⟩ => moves_pure _

theorem advances_importLine (fuel : Nat) : Advances t (importLine fuel) :=
  Advances.bind (Advances.spanned (Advances.orElse
    (Advances.bind (advances_text _) fun _ =>
      reads_withSet (moves_bind (reads_commit (moves_importDirective fuel)) fun _ =>
        moves_bind (reads_commit moves_lineEnd) fun _ => moves_pure _))
    (Advances.bind (advances_text _) fun _ =>
      reads_withSet (moves_bind (reads_commit (importMoves fuel).tree) fun _ =>
        moves_bind (reads_commit moves_lineEnd) fun _ => moves_pure _))))
    fun ⟨⟨_, _⟩, _⟩ => moves_pure _

theorem advances_exportLine : Advances t exportLine :=
  Advances.bind (Advances.spanned (Advances.bind (advances_text _) fun _ =>
    reads_withSet (moves_bind moves_exportArgs fun _ =>
      moves_bind (reads_optional moves_lineEnd).moves fun _ => moves_pure _)))
    fun ⟨_, _⟩ => moves_pure _

theorem advances_passThrough (fuel : Nat) : Advances t (passThrough fuel) :=
  Advances.bind (Advances.spanned (Advances.orElse (advances_text _).map
    (Advances.bind ((advances_text _).orElse ((advances_text _).orElse
      ((advances_text _).orElse (advances_text _)))) fun _ =>
      moves_bind ((bodyReads fuel).body _ _).moves fun _ => moves_pure _)))
    fun ⟨_, _⟩ => moves_pure _

theorem advances_function (fuel : Nat) : Advances t (function fuel) :=
  Advances.bind (advances_text _) fun _ =>
    moves_bind (reads_commit reads_ident).moves fun _ =>
    moves_bind (reads_commit (reads_text _)).moves fun _ =>
    moves_bind ((bodyReads fuel).body _ _).moves fun _ =>
    moves_bind ((bodyReads fuel).body _ _).moves fun _ =>
    moves_bind ((bodyReads fuel).body _ _).moves fun _ => moves_pure _

theorem advances_structDecl (fuel : Nat) : Advances t (structDecl fuel) :=
  Advances.bind (advances_text _) fun _ =>
    moves_bind (reads_commit reads_ident).moves fun _ =>
    moves_bind (reads_commit (reads_text _)).moves fun _ =>
    moves_bind (reads_structMembers fuel _).moves fun _ => moves_pure _

theorem advances_globalValue (fuel : Nat) : Advances t (globalValue fuel) :=
  Advances.bind ((advances_text _).orElse ((advances_text _).orElse (advances_text _))) fun _ =>
    moves_bind (reads_optional (moves_bind (reads_text _).moves fun _ =>
      ((bodyReads fuel).body _ _).moves)).moves fun _ =>
    moves_bind (reads_commit reads_ident).moves fun _ =>
    moves_bind ((bodyReads fuel).body _ _).moves fun _ => moves_pure _

theorem advances_typeAlias (fuel : Nat) : Advances t (typeAlias fuel) :=
  Advances.bind (advances_text _) fun _ =>
    moves_bind (reads_commit reads_ident).moves fun _ =>
    moves_bind (reads_commit (reads_text _)).moves fun _ =>
    moves_bind ((bodyReads fuel).body _ _).moves fun _ => moves_pure _

/-- A declaration reads its keyword, after its attributes and an `export` keyword. -/
theorem advances_declaration (fuel : Nat) : Advances t (declaration fuel) := by
  intro budget c c' d hc hrun
  simp only [declaration] at hrun
  split at hrun
  · cases hrun
  · next keyword c₁ hkeyword =>
    obtain ⟨hc₁, hle₁, -⟩ := (reads_optional (reads_spanned (reads_text "export"))).moves hc hkeyword
    split at hrun
    · cases hrun
    · next attrs d₀ span c₂ hbody =>
      simp only [Outcome.ok.injEq] at hrun
      obtain ⟨rfl, rfl⟩ := hrun
      obtain ⟨hc₂, -, hlt⟩ := (Advances.spanned (Moves.bind_advances (reads_attributes fuel).moves
        fun _ => Advances.bind ((advances_function fuel).orElse ((advances_structDecl fuel).orElse
          ((advances_globalValue fuel).orElse (advances_typeAlias fuel)))) fun _ => moves_pure _))
        hc₁ hbody
      exact ⟨hc₂, by omega, by omega⟩

theorem advances_skipUnknown : Advances t skipUnknown :=
  Advances.bind advances_anyToken fun _ => moves_warn _ _

theorem advances_globalItem (fuel : Nat) : Advances t (globalItem fuel) :=
  advances_moduleLine.map.orElse <| (advances_importLine fuel).map.orElse <|
    advances_exportLine.map.orElse <| (advances_passThrough fuel).map.orElse <|
    (advances_declaration fuel).map.orElse advances_skipUnknown.map

theorem advances_attributeItem (fuel : Nat) : Advances t (attributeItem fuel) :=
  Advances.bind (advances_text _) fun _ =>
    moves_bind (reads_commit (reads_kind _)).moves fun _ => ((bodyReads fuel).args _).moves

/-- The rules the grammar repeats over `t`, each of which advances: the rule of each `many`,
and the separator of each separated list. So no repetition is cut short by its fuel. -/
structure Repetitions (t : List Char) : Prop where
  /-- The relative markers in front of an import path. -/
  markers : Advances t
    ((fun (tok : Token) => if tok.text == "./" then "." else "..") <$> kind .relativePrefix)
  /-- The line breaks an import list may hold. -/
  lineBreaks : Advances t (kind .eol)
  /-- The separator of the arguments of an import. -/
  argumentSeparator : Advances t (text ",")
  /-- The separator of the segments of a path. -/
  pathSeparator : Advances t separator
  /-- The `::` segments of a reference. -/
  pathSegments : Advances t (text "::" >>= fun _ => kind .word)
  /-- The `.` segments of a reference. -/
  memberSegments : Advances t (text "." >>= fun _ => kind .word)
  /-- The attributes in front of a declaration or a member. -/
  attributes : ∀ fuel, Advances t (attributeItem fuel)
  /-- The top-level items of a module. -/
  items : ∀ fuel, Advances t (globalItem fuel)
  /-- The tokens of a listing. -/
  tokens : Advances t anyToken

/-- **Every repetition of the grammar advances**, over every text. -/
theorem repetitions (t : List Char) : Repetitions t where
  markers := (advances_kind _).map
  lineBreaks := advances_kind _
  argumentSeparator := advances_text _
  pathSeparator := (advances_text _).orElse ((advances_text _).orElse (advances_text _))
  pathSegments := Advances.bind (advances_text _) fun _ => (reads_kind _).moves
  memberSegments := Advances.bind (advances_text _) fun _ => (reads_kind _).moves
  attributes := advances_attributeItem
  items := advances_globalItem
  tokens := advances_anyToken

end Grammar

end ShaderLink
