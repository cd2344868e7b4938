import ShaderLink.Parse.Basic

/-!
# Rules that read their text forward

A parse runs over one text `t`. A cursor is *aligned* in `t` when its rest is what follows
the first `pos` bytes of `t` (`Cursor.Aligned`). Tokens come off the front of the rest, and
backtracking only returns to a cursor met before, so a rule started at an aligned cursor ends
at an aligned one, no earlier than it started: the rule *reads* `t` (`Parser.Reads`), with a
property of its value stated between the two positions.

Positions of aligned cursors are character boundaries of `t`, so a span between two of them
is a slice of `t` (`Span.Within`), and spans read one after another ascend, each ending before
the next starts (`Span.Ascending`).

The combinators of `Parser` each keep `Reads` and carry the properties of their values
through: a sequence (`reads_bind`, `moves_bind`), a choice (`reads_orElse`), a repetition,
whose values come one after another (`reads_many`, `Parser.Sequence`), and a rule together
with its span (`reads_spanned`). The grammar's own rules are treated in the modules that
follow.
-/

namespace ShaderLink

namespace Text

/-- Splitting at the byte size of a prefix gives that prefix back. -/
theorem splitAt?_byteSize (pre suf : List Char) :
    splitAt? (pre ++ suf) (byteSize pre) = some (pre, suf) := by
  induction pre with
  | nil => simp
  | cons x xs ih =>
    obtain ⟨k, hk⟩ : ∃ k, x.utf8Size + byteSize xs = k + 1 :=
      ⟨x.utf8Size + byteSize xs - 1, by have := Char.utf8Size_pos x; omega⟩
    have hx : x.utf8Size ≤ k + 1 := by omega
    have hrest : k + 1 - x.utf8Size = byteSize xs := by omega
    simp [splitAt?, hk, hx, hrest, ih]

/-- The byte size of a prefix is a character boundary. -/
theorem isBoundary_byteSize (pre suf : List Char) :
    isBoundary (pre ++ suf) (byteSize pre) = true := by
  simp [isBoundary, splitAt?_byteSize]

end Text

/-- A cursor is aligned in `t` when its rest is what follows the first `pos` bytes of `t`. -/
def Cursor.Aligned (t : List Char) (c : Cursor) : Prop :=
  ∃ pre, t = pre ++ c.rest ∧ Text.byteSize pre = c.pos

namespace Cursor

theorem aligned_start (s : String) : (Cursor.start s).Aligned s.toList := ⟨[], rfl, rfl⟩

theorem Aligned.isBoundary {t : List Char} {c : Cursor} (h : c.Aligned t) :
    Text.isBoundary t c.pos = true := by
  obtain ⟨pre, rfl, hpos⟩ := h
  rw [← hpos]
  exact Text.isBoundary_byteSize pre c.rest

theorem Aligned.pos_le_byteSize {t : List Char} {c : Cursor} (h : c.Aligned t) :
    c.pos ≤ Text.byteSize t := by
  obtain ⟨pre, rfl, hpos⟩ := h
  rw [Text.byteSize_append]
  omega

@[simp] theorem resetTo_pos (now c : Cursor) : (now.resetTo c).pos = c.pos := rfl

theorem Aligned.resetTo {t : List Char} {c : Cursor} (now : Cursor) (h : c.Aligned t) :
    (now.resetTo c).Aligned t := h

end Cursor

/-- A span of `t` between the positions `lo` and `hi`: in order, with both ends on character
boundaries of `t`. -/
structure Span.Within (t : List Char) (lo hi : Nat) (s : Span) : Prop where
  lo_le : lo ≤ s.start
  start_le : s.start ≤ s.stop
  stop_le : s.stop ≤ hi
  start_boundary : Text.isBoundary t s.start = true
  stop_boundary : Text.isBoundary t s.stop = true

/-- Spans of `t` in source order, each ending before the next starts, all between `lo` and
`hi`. -/
inductive Span.Ascending (t : List Char) : Nat → Nat → List Span → Prop
  | nil {lo hi : Nat} : lo ≤ hi → Span.Ascending t lo hi []
  | cons {lo hi : Nat} {s : Span} {rest : List Span} :
      s.Within t lo s.stop → Span.Ascending t s.stop hi rest → Span.Ascending t lo hi (s :: rest)

namespace Span

variable {t : List Char} {lo hi : Nat}

theorem Within.mono {lo' hi' : Nat} {s : Span} (h : s.Within t lo hi) (hlo : lo' ≤ lo)
    (hhi : hi ≤ hi') : s.Within t lo' hi' :=
  ⟨Nat.le_trans hlo h.lo_le, h.start_le, Nat.le_trans h.stop_le hhi, h.start_boundary,
    h.stop_boundary⟩

/-- The span between two aligned cursors. -/
theorem within_of_aligned {c c' : Cursor} (hc : c.Aligned t) (hc' : c'.Aligned t)
    (hle : c.pos ≤ c'.pos) : (Span.mk c.pos c'.pos).Within t c.pos c'.pos :=
  ⟨Nat.le_refl _, hle, Nat.le_refl _, hc.isBoundary, hc'.isBoundary⟩

namespace Ascending

theorem le {l : List Span} (h : Ascending t lo hi l) : lo ≤ hi := by
  induction h with
  | nil hle => exact hle
  | cons hs _ ih => exact Nat.le_trans hs.lo_le (Nat.le_trans hs.start_le ih)

theorem singleton {s : Span} (h : s.Within t lo hi) : Ascending t lo hi [s] :=
  .cons ⟨h.lo_le, h.start_le, Nat.le_refl _, h.start_boundary, h.stop_boundary⟩ (.nil h.stop_le)

theorem append {mid : Nat} {l₁ l₂ : List Span} (h₁ : Ascending t lo mid l₁)
    (h₂ : Ascending t mid hi l₂) : Ascending t lo hi (l₁ ++ l₂) := by
  induction h₁ with
  | nil hle =>
    cases h₂ with
    | nil hle' => exact .nil (Nat.le_trans hle hle')
    | cons hs hrest => exact .cons (hs.mono hle (Nat.le_refl _)) hrest
  | cons hs _ ih => exact .cons hs (ih h₂)

/-- An ascending list cut in two: the first part ends where the second starts. -/
theorem split_append {l₁ l₂ : List Span} (h : Ascending t lo hi (l₁ ++ l₂)) :
    ∃ mid, Ascending t lo mid l₁ ∧ Ascending t mid hi l₂ := by
  induction l₁ generalizing lo with
  | nil => exact ⟨lo, .nil (Nat.le_refl _), h⟩
  | cons s l₁ ih =>
    cases h with
    | cons hs hrest =>
      obtain ⟨mid, h₁, h₂⟩ := ih hrest
      exact ⟨mid, .cons hs h₁, h₂⟩

theorem mono_lo {lo' : Nat} {l : List Span} (hlo : lo' ≤ lo) (h : Ascending t lo hi l) :
    Ascending t lo' hi l := by
  cases h with
  | nil hle => exact .nil (Nat.le_trans hlo hle)
  | cons hs hrest => exact .cons (hs.mono hlo (Nat.le_refl _)) hrest

theorem mono_hi {hi' : Nat} {l : List Span} (h : Ascending t lo hi l) (hhi : hi ≤ hi') :
    Ascending t lo hi' l := by
  induction h with
  | nil hle => exact .nil (Nat.le_trans hle hhi)
  | cons hs _ ih => exact .cons hs (ih hhi)

/-- Every span of an ascending list lies between its bounds. -/
theorem within {l : List Span} (h : Ascending t lo hi l) : ∀ s ∈ l, s.Within t lo hi := by
  induction h with
  | nil => simp
  | cons hs hrest ih =>
    intro s hmem
    rcases List.mem_cons.1 hmem with rfl | hmem
    · exact hs.mono (Nat.le_refl _) hrest.le
    · exact (ih s hmem).mono (Nat.le_trans hs.lo_le hs.start_le) (Nat.le_refl _)

/-- Of two spans of an ascending list, the earlier ends before the later starts. -/
theorem pairwise {l : List Span} (h : Ascending t lo hi l) :
    l.Pairwise fun a b => a.stop ≤ b.start := by
  induction h with
  | nil => exact .nil
  | cons _ hrest ih => exact .cons (fun b hb => (hrest.within b hb).lo_le) ih

end Ascending

end Span

namespace Parser

variable {α β : Type} {t : List Char}

/-- A rule reads `t` forward: from a cursor aligned in `t`, a success ends at an aligned
cursor no earlier, with a value that `Q` accepts between the two positions. -/
def Reads (t : List Char) (p : Parser α) (Q : Nat → Nat → α → Prop) : Prop :=
  ∀ ⦃budget : Nat⦄ ⦃c c' : Cursor⦄ ⦃a : α⦄, c.Aligned t → p budget c = .ok a c' →
    c'.Aligned t ∧ c.pos ≤ c'.pos ∧ Q c.pos c'.pos a

/-- A rule moves forward through `t`, whatever its value. -/
def Moves (t : List Char) (p : Parser α) : Prop := Reads t p fun _ _ _ => True

/-- Values read one after another from `lo` to `hi`, each accepted by `Q` on its own
stretch. -/
inductive Sequence (Q : Nat → Nat → α → Prop) : Nat → Nat → List α → Prop
  | nil {n : Nat} : Sequence Q n n []
  | cons {lo mid hi : Nat} {a : α} {as : List α} :
      lo ≤ mid → Q lo mid a → Sequence Q mid hi as → Sequence Q lo hi (a :: as)

theorem Sequence.le {Q : Nat → Nat → α → Prop} {lo hi : Nat} {as : List α}
    (h : Sequence Q lo hi as) : lo ≤ hi := by
  induction h with
  | nil => exact Nat.le_refl _
  | cons hle _ _ ih => exact Nat.le_trans hle ih

/-! ### Taking outcomes apart -/

section Outcomes

variable {budget : Nat} {c c' : Cursor}

theorem bind_eq_ok {p : Parser α} {f : α → Parser β} {b : β}
    (h : (p >>= f) budget c = .ok b c') :
    ∃ a c₁, p budget c = .ok a c₁ ∧ f a budget c₁ = .ok b c' := by
  cases hp : p budget c with
  | ok a c₁ => exact ⟨a, c₁, rfl, by simpa [bind, hp] using h⟩
  | error e c₁ => simp [bind, hp] at h

theorem map_eq_ok {g : α → β} {p : Parser α} {b : β} (h : (g <$> p) budget c = .ok b c') :
    ∃ a, p budget c = .ok a c' ∧ g a = b := by
  cases hp : p budget c with
  | ok a c₁ =>
    simp only [Functor.map, hp, Function.comp, Outcome.ok.injEq] at h
    obtain ⟨rfl, rfl⟩ := h
    exact ⟨a, rfl, rfl⟩
  | error e c₁ => simp [Functor.map, hp] at h

theorem pure_eq_ok {a b : α} (h : (pure a : Parser α) budget c = .ok b c') : a = b ∧ c = c' := by
  cases h
  exact ⟨rfl, rfl⟩

theorem position_eq_ok {n : Nat} (h : position budget c = .ok n c') : n = c.pos ∧ c' = c := by
  cases h
  exact ⟨rfl, rfl⟩

end Outcomes

/-! ### The combinators -/

theorem Reads.weaken {p : Parser α} {Q Q' : Nat → Nat → α → Prop} (hp : Reads t p Q)
    (h : ∀ lo hi a, lo ≤ hi → Q lo hi a → Q' lo hi a) : Reads t p Q' := by
  intro budget c c' a hc hrun
  obtain ⟨hc', hle, hq⟩ := hp hc hrun
  exact ⟨hc', hle, h _ _ _ hle hq⟩

theorem Reads.moves {p : Parser α} {Q : Nat → Nat → α → Prop} (hp : Reads t p Q) : Moves t p :=
  hp.weaken fun _ _ _ _ _ => trivial

theorem reads_pure {a : α} {Q : Nat → Nat → α → Prop} (h : ∀ n, Q n n a) :
    Reads t (pure a) Q := by
  intro budget c c' b hc hrun
  obtain ⟨rfl, rfl⟩ := pure_eq_ok hrun
  exact ⟨hc, Nat.le_refl _, h _⟩

theorem moves_pure (a : α) : Moves t (pure a) := reads_pure fun _ => trivial

theorem reads_bind {p : Parser α} {f : α → Parser β} {Q₁ : Nat → Nat → α → Prop}
    {Q₂ : α → Nat → Nat → β → Prop} (hp : Reads t p Q₁) (hf : ∀ a, Reads t (f a) (Q₂ a)) :
    Reads t (p >>= f) fun lo hi b =>
      ∃ mid a, lo ≤ mid ∧ mid ≤ hi ∧ Q₁ lo mid a ∧ Q₂ a mid hi b := by
  intro budget c c' b hc hrun
  obtain ⟨a, c₁, h₁, h₂⟩ := bind_eq_ok hrun
  obtain ⟨hc₁, hle₁, hq₁⟩ := hp hc h₁
  obtain ⟨hc', hle₂, hq₂⟩ := hf a hc₁ h₂
  exact ⟨hc', Nat.le_trans hle₁ hle₂, c₁.pos, a, hle₁, hle₂, hq₁, hq₂⟩

/-- The first rule of a sequence, run from an aligned cursor: what it read, and where the
rest of the sequence starts. -/
theorem Reads.bind_ok {p : Parser α} {f : α → Parser β} {Q : Nat → Nat → α → Prop}
    (hp : Reads t p Q) {budget : Nat} {c c' : Cursor} {b : β} (hc : c.Aligned t)
    (h : (p >>= f) budget c = .ok b c') :
    ∃ a c₁, c₁.Aligned t ∧ c.pos ≤ c₁.pos ∧ Q c.pos c₁.pos a ∧ f a budget c₁ = .ok b c' := by
  obtain ⟨a, c₁, h₁, h₂⟩ := bind_eq_ok h
  obtain ⟨hc₁, hle, hq⟩ := hp hc h₁
  exact ⟨a, c₁, hc₁, hle, hq, h₂⟩

theorem moves_bind {p : Parser α} {f : α → Parser β} (hp : Moves t p) (hf : ∀ a, Moves t (f a)) :
    Moves t (p >>= f) :=
  (reads_bind hp hf).moves

theorem reads_map {g : α → β} {p : Parser α} {Q : Nat → Nat → α → Prop} (hp : Reads t p Q) :
    Reads t (g <$> p) fun lo hi b => ∃ a, g a = b ∧ Q lo hi a := by
  intro budget c c' b hc hrun
  obtain ⟨a, h, rfl⟩ := map_eq_ok hrun
  obtain ⟨hc', hle, hq⟩ := hp hc h
  exact ⟨hc', hle, a, rfl, hq⟩

theorem moves_map (g : α → β) {p : Parser α} (hp : Moves t p) : Moves t (g <$> p) :=
  (reads_map hp).moves

theorem moves_position : Moves t position := by
  intro budget c c' n hc hrun
  obtain ⟨rfl, rfl⟩ := position_eq_ok hrun
  exact ⟨hc, Nat.le_refl _, trivial⟩

theorem reads_decline {Q : Nat → Nat → α → Prop} : Reads t decline Q := by
  intro budget c c' a hc hrun
  cases hrun

theorem reads_cut {p : Parser α} {Q : Nat → Nat → α → Prop} (hp : Reads t p Q) :
    Reads t (cut p) Q := by
  intro budget c c' a hc hrun
  simp only [cut] at hrun
  split at hrun
  · cases hrun
  · next r _ => exact hp hc hrun

theorem reads_note {x : Context} {p : Parser α} {Q : Nat → Nat → α → Prop} (hp : Reads t p Q) :
    Reads t (note x p) Q := by
  intro budget c c' a hc hrun
  simp only [note] at hrun
  split at hrun
  · cases hrun
  · exact hp hc hrun

theorem reads_commit {p : Parser α} {what : String} {Q : Nat → Nat → α → Prop}
    (hp : Reads t p Q) : Reads t (commit p what) Q :=
  reads_note (reads_cut hp)

theorem reads_hardError {l : String} {Q : Nat → Nat → α → Prop} : Reads t (hardError l) Q :=
  reads_note (reads_cut reads_decline)

theorem reads_orElse {p q : Parser α} {Q : Nat → Nat → α → Prop} (hp : Reads t p Q)
    (hq : Reads t q Q) : Reads t (p.orElse q) Q := by
  intro budget c c' a hc hrun
  simp only [orElse] at hrun
  split at hrun
  · next f c₁ _ =>
    split at hrun
    · cases hrun
    · exact hq (c := c₁.resetTo c) (hc.resetTo _) hrun
  · exact hp hc hrun

theorem reads_optional {p : Parser α} {Q : Nat → Nat → α → Prop} (hp : Reads t p Q) :
    Reads t (optional p) fun lo hi o => ∀ a ∈ o, Q lo hi a := by
  intro budget c c' o hc hrun
  simp only [optional] at hrun
  split at hrun
  · cases hrun
    obtain ⟨hc', hle, hq⟩ := hp hc ‹_›
    exact ⟨hc', hle, fun a ha => by cases ha; exact hq⟩
  · split at hrun
    · cases hrun
    · cases hrun
      exact ⟨hc.resetTo _, Nat.le_refl _, fun a ha => by cases ha⟩

/-- `peek` moves whatever it looks at, since it always goes back to where it started. -/
theorem moves_peek (p : Parser α) : Moves t (peek p) := by
  intro budget c c' a hc hrun
  simp only [peek] at hrun
  split at hrun
  · cases hrun
    exact ⟨hc.resetTo _, Nat.le_refl _, trivial⟩
  · next r _ => cases r <;> simp_all

theorem moves_notFollowedBy (p : Parser α) : Moves t (notFollowedBy p) := by
  intro budget c c' u hc hrun
  simp only [notFollowedBy] at hrun
  split at hrun
  · cases hrun
  · split at hrun
    · cases hrun
    · cases hrun
      exact ⟨hc.resetTo _, Nat.le_refl _, trivial⟩

theorem reads_verify {p : Parser α} {test : α → Bool} {Q : Nat → Nat → α → Prop}
    (hp : Reads t p Q) : Reads t (verify p test) Q := by
  intro budget c c' a hc hrun
  simp only [verify] at hrun
  split at hrun
  · split at hrun
    · cases hrun
      exact hp hc ‹_›
    · cases hrun
  · next r _ => cases r <;> simp_all

theorem reads_withSet {set : TokenSet} {p : Parser α} {Q : Nat → Nat → α → Prop}
    (hp : Reads t p Q) : Reads t (withSet set p) Q := by
  intro budget c c' a hc hrun
  simp only [withSet] at hrun
  split at hrun
  · cases hrun
    obtain ⟨hc', hle, hq⟩ := hp (c := { c with set }) hc ‹_›
    exact ⟨hc', hle, hq⟩
  · cases hrun

theorem moves_warn (span : Span) (message : String) : Moves t (warn span message) := by
  intro budget c c' u hc hrun
  cases hrun
  exact ⟨hc, Nat.le_refl _, trivial⟩

/-! ### Tokens -/

/-- A token covers exactly the bytes that reading it passed over. -/
theorem reads_lexOne : Reads t lexOne fun lo hi tok => tok.span = ⟨lo, hi⟩ := by
  intro budget c c' tok hc hrun
  simp only [lexOne] at hrun
  split at hrun
  · cases hrun
  · split at hrun
    · cases hrun
    · cases hrun
    · next k n _ =>
      cases hrun
      obtain ⟨pre, ht, hpos⟩ := hc
      refine ⟨⟨pre ++ c.rest.take n, ?_, ?_⟩, by simp, rfl⟩
      · rw [List.append_assoc, List.take_append_drop]
        exact ht
      · simp [Text.byteSize_append, hpos]

/-- The token `anyTokenFrom` returns lies between where it started and where it stopped. -/
theorem reads_anyTokenFrom {budget : Nat} {c c' : Cursor} {tok : Token} (hc : c.Aligned t)
    (hrun : anyTokenFrom budget c = .ok tok c') :
    c'.Aligned t ∧ c.pos ≤ c'.pos ∧ tok.span.Within t c.pos c'.pos := by
  rw [anyTokenFrom] at hrun
  split at hrun
  · next tok₁ c₁ hlex =>
    obtain ⟨hc₁, hle₁, hspan⟩ := reads_lexOne hc hlex
    split at hrun
    · obtain ⟨hc', hle₂, hin⟩ := reads_anyTokenFrom hc₁ hrun
      exact ⟨hc', Nat.le_trans hle₁ hle₂, hin.mono hle₁ (Nat.le_refl _)⟩
    · cases hrun
      have hin := Span.within_of_aligned hc hc₁ hle₁
      rw [← hspan] at hin
      exact ⟨hc₁, hle₁, hin⟩
  · cases hrun
termination_by c.rest.length
decreasing_by exact lexOne_rest_lt ‹_›

theorem reads_anyToken : Reads t anyToken fun lo hi tok => tok.span.Within t lo hi :=
  fun _ _ _ _ hc hrun => reads_anyTokenFrom hc hrun

theorem moves_skipFrom {budget : Nat} {c c' : Cursor} {u : Unit} (hc : c.Aligned t)
    (hrun : skipFrom budget c = .ok u c') : c'.Aligned t ∧ c.pos ≤ c'.pos := by
  rw [skipFrom] at hrun
  split at hrun
  · next tok₁ c₁ hlex =>
    obtain ⟨hc₁, hle₁, -⟩ := reads_lexOne hc hlex
    split at hrun
    · obtain ⟨hc', hle₂⟩ := moves_skipFrom hc₁ hrun
      exact ⟨hc', Nat.le_trans hle₁ hle₂⟩
    · cases hrun
      exact ⟨hc.resetTo _, Nat.le_refl _⟩
  · split at hrun
    · cases hrun
    · cases hrun
      exact ⟨hc.resetTo _, Nat.le_refl _⟩
termination_by c.rest.length
decreasing_by exact lexOne_rest_lt ‹_›

theorem moves_skipIgnored : Moves t skipIgnored := fun _ _ _ _ hc hrun =>
  ⟨(moves_skipFrom hc hrun).1, (moves_skipFrom hc hrun).2, trivial⟩

theorem reads_kind (k : TokenKind) : Reads t (kind k) fun lo hi tok => tok.span.Within t lo hi :=
  reads_verify reads_anyToken

theorem reads_text (s : String) : Reads t (text s) fun lo hi tok => tok.span.Within t lo hi :=
  reads_verify reads_anyToken

theorem reads_ident : Reads t ident fun lo hi tok => tok.span.Within t lo hi :=
  reads_verify reads_anyToken

theorem moves_endOfInput : Moves t endOfInput := moves_notFollowedBy _

/-- `spanned p` returns the span from the start of the first token of `p` to where `p`
stopped, and the property of the value of `p` over that span. -/
theorem reads_spanned {p : Parser α} {Q : Nat → Nat → α → Prop} (hp : Reads t p Q) :
    Reads t (spanned p) fun lo hi r => r.2.Within t lo hi ∧ r.2.stop = hi ∧
      Q r.2.start r.2.stop r.1 := by
  intro budget c c' r hc hrun
  obtain ⟨u, c₁, hskip, hrun⟩ := bind_eq_ok hrun
  obtain ⟨start, c₂, hstart, hrun⟩ := bind_eq_ok hrun
  obtain ⟨rfl, rfl⟩ := position_eq_ok hstart
  obtain ⟨a, c₃, hbody, hrun⟩ := bind_eq_ok hrun
  obtain ⟨stop, c₄, hstop, hrun⟩ := bind_eq_ok hrun
  obtain ⟨rfl, rfl⟩ := position_eq_ok hstop
  obtain ⟨rfl, rfl⟩ := pure_eq_ok hrun
  obtain ⟨hc₁, hle₁, -⟩ := moves_skipIgnored hc hskip
  obtain ⟨hc₃, hle₃, hq⟩ := hp hc₁ hbody
  exact ⟨hc₃, Nat.le_trans hle₁ hle₃,
    (Span.within_of_aligned hc₁ hc₃ hle₃).mono hle₁ (Nat.le_refl _), rfl, hq⟩

/-! ### Repetition -/

theorem reads_manyFor {p : Parser α} {Q : Nat → Nat → α → Prop} (hp : Reads t p Q) :
    ∀ fuel, Reads t (manyFor p fuel) (Sequence Q)
  | 0 => reads_pure fun _ => .nil
  | fuel + 1 => by
    intro budget c c' as hc hrun
    simp only [manyFor] at hrun
    split at hrun
    · next a c₁ h₁ =>
      split at hrun
      · cases hrun
        obtain ⟨hc₁, hle₁, hq⟩ := hp hc h₁
        obtain ⟨hc', hle₂, hseq⟩ := reads_manyFor hp fuel hc₁ ‹_›
        exact ⟨hc', Nat.le_trans hle₁ hle₂, .cons hle₁ hq hseq⟩
      · cases hrun
    · split at hrun
      · cases hrun
      · cases hrun
        exact ⟨hc.resetTo _, Nat.le_refl _, .nil⟩

theorem reads_many {p : Parser α} {Q : Nat → Nat → α → Prop} (hp : Reads t p Q) :
    Reads t (many p) (Sequence Q) :=
  fun _ _ _ _ hc hrun => reads_manyFor hp _ hc hrun

theorem moves_sepTailFor {p : Parser α} {sep : Parser β} (hp : Moves t p) (hsep : Moves t sep) :
    ∀ fuel, Moves t (sepTailFor p sep fuel)
  | 0 => moves_pure _
  | fuel + 1 => by
    intro budget c c' as hc hrun
    simp only [sepTailFor] at hrun
    split at hrun
    · split at hrun
      · cases hrun
      · cases hrun
        exact ⟨hc.resetTo _, Nat.le_refl _, trivial⟩
    · next c₁ h₁ =>
      obtain ⟨hc₁, hle₁, -⟩ := hsep hc h₁
      split at hrun
      · split at hrun
        · cases hrun
        · cases hrun
          exact ⟨hc.resetTo _, Nat.le_refl _, trivial⟩
      · next c₂ h₂ =>
        obtain ⟨hc₂, hle₂, -⟩ := hp hc₁ h₂
        split at hrun
        · cases hrun
          obtain ⟨hc', hle₃, -⟩ := moves_sepTailFor hp hsep fuel hc₂ ‹_›
          exact ⟨hc', by omega, trivial⟩
        · cases hrun

theorem moves_sepBy1 {p : Parser α} {sep : Parser β} (hp : Moves t p) (hsep : Moves t sep) :
    Moves t (sepBy1 p sep) :=
  moves_bind hp fun _ => moves_bind (fun _ _ _ _ hc hrun => moves_sepTailFor hp hsep _ hc hrun)
    fun _ => moves_pure _

theorem moves_sepBy {p : Parser α} {sep : Parser β} (hp : Moves t p) (hsep : Moves t sep) :
    Moves t (sepBy p sep) := by
  intro budget c c' as hc hrun
  simp only [sepBy] at hrun
  split at hrun
  · cases hrun
    exact (reads_optional hp).moves hc ‹_›
  · next c₁ h₁ =>
    obtain ⟨hc₁, hle₁, -⟩ := (reads_optional hp).moves hc h₁
    split at hrun
    · cases hrun
      obtain ⟨hc', hle₂, -⟩ := moves_sepTailFor hp hsep _ hc₁ ‹_›
      exact ⟨hc', Nat.le_trans hle₁ hle₂, trivial⟩
    · cases hrun
  · cases hrun

end Parser

end ShaderLink
