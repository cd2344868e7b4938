import ShaderLink.Module.Parsed
import ShaderLink.Parse.Tokens

/-!
# The token budget

Every token read counts against the budget, also when backtracking reads it again, and reading
the first token past the budget is a committed failure. This module shows that the budget acts
on a parse only through that failure, one rule at a time (`Parser.Metered`):

* no rule turns the failure into a backtrack: a failure because the budget ran out is always
  committed (`honest`);
* from a cursor within the budget, a rule ends within it, or in the budget failure exactly one
  token past it (`within`), so once that failure is raised no rule reads another token;
* unless a rule's outcome is the budget failure, a larger budget gives the very same outcome
  (`stable`).

Every combinator keeps the three facts. Those that run a rule once and only rewrite its
outcome do so by one argument (`Outcome.Rewrite`, `Parser.metered_of_rewrite`), and so do the
two loops that skip ignored tokens (`Parser.metered_skipLoop`). Every rule of the grammar keeps
them too, the recursive ones for each fuel from the one below (`Grammar.ImportMetered`,
`Grammar.BodyMetered`). Three rules match on outcomes by hand: a reference, which gives back
the dots it read unless a call follows; a structure member's type; and a declaration after
`export`, which commits the failure of what follows the keyword. None of them catches a
committed failure: each is a run of one rule and then another (`Parser.metered_of_bindFrom`),
or a rewrite of one rule's outcome.

So reading a module or the tokens of a text reads at most one token more than the budget
(`reads_within_budget`), and a module whose parse does not end in the budget failure parses
the same under every larger budget (`parseModule_budget_stable`).
-/

namespace ShaderLink

namespace Outcome

variable {α : Type}

/-- Where an outcome leaves the cursor. -/
def cursor : Outcome α → Cursor
  | .ok _ c => c
  | .error _ c => c

/-- The outcome is the failure that the token budget ran out. -/
def overBudget : Outcome α → Bool
  | .ok _ _ => false
  | .error f _ => f.overBudget

/-- An outcome in which running out of budget is a committed failure. -/
def Honest (r : Outcome α) : Prop :=
  ∀ f c, r = .error f c → f.overBudget = true → f.committed = true

/-- At most `budget` tokens read, or one more in the failure that the budget ran out. -/
def WithinBudget (budget : Nat) (r : Outcome α) : Prop :=
  r.cursor.steps ≤ budget ∨ (r.overBudget = true ∧ r.cursor.steps = budget + 1)

@[simp] theorem cursor_ok (a : α) (c : Cursor) : (Outcome.ok a c).cursor = c := rfl

@[simp] theorem cursor_error (f : Failure) (c : Cursor) :
    (Outcome.error f c : Outcome α).cursor = c := rfl

@[simp] theorem overBudget_ok (a : α) (c : Cursor) : (Outcome.ok a c).overBudget = false := rfl

@[simp] theorem overBudget_error (f : Failure) (c : Cursor) :
    (Outcome.error f c : Outcome α).overBudget = f.overBudget := rfl

theorem honest_ok (a : α) (c : Cursor) : (Outcome.ok a c).Honest := by
  intro f c' h
  cases h

theorem honest_error {f : Failure} (c : Cursor) (h : f.overBudget = true → f.committed = true) :
    (Outcome.error f c : Outcome α).Honest := by
  intro f' c' heq
  cases heq
  exact h

theorem Honest.committed {f : Failure} {c : Cursor} (h : (Outcome.error f c : Outcome α).Honest)
    (hf : f.overBudget = true) : f.committed = true :=
  h f c rfl hf

/-- A failure that lets a choice go on is not the budget failure. -/
theorem Honest.not_overBudget {f : Failure} {c : Cursor}
    (h : (Outcome.error f c : Outcome α).Honest) (hf : f.committed = false) :
    f.overBudget = false := by
  cases hb : f.overBudget
  · rfl
  · rw [h.committed hb] at hf
    cases hf

theorem WithinBudget.steps_le {budget : Nat} {r : Outcome α} (h : r.WithinBudget budget)
    (hr : r.overBudget = false) : r.cursor.steps ≤ budget := by
  rcases h with h | ⟨ho, -⟩
  · exact h
  · rw [hr] at ho
    cases ho

/-- Two outcomes that leave the same number of tokens read and are both the budget failure or
both not. -/
theorem WithinBudget.congr {budget : Nat} {β : Type} {r : Outcome α} {r' : Outcome β}
    (h : r.WithinBudget budget) (hsteps : r'.cursor.steps = r.cursor.steps)
    (hover : r'.overBudget = r.overBudget) : r'.WithinBudget budget := by
  rcases h with h | ⟨ho, h⟩
  · exact .inl (hsteps ▸ h)
  · exact .inr ⟨hover ▸ ho, hsteps ▸ h⟩

/-- `r'` is `r` rewritten without reading a token: as many tokens read, the budget failure where
`r` is one, and honest where `r` is. -/
structure Rewrite {β : Type} (r : Outcome α) (r' : Outcome β) : Prop where
  steps : r'.cursor.steps = r.cursor.steps
  overBudget : r.Honest → r'.overBudget = r.overBudget
  honest : r.Honest → r'.Honest

section Rewrite

variable {β : Type} {c c' : Cursor}

theorem Rewrite.refl (r : Outcome α) : r.Rewrite r := ⟨rfl, fun _ => rfl, id⟩

/-- A success kept, at a cursor that has read as many tokens. -/
theorem rewrite_ok {a : α} {b : β} (hsteps : c'.steps = c.steps) :
    (Outcome.ok a c).Rewrite (Outcome.ok b c') :=
  ⟨hsteps, fun _ => rfl, fun _ => honest_ok b c'⟩

/-- A failure kept, with more notes or committed, at a cursor that has read as many tokens. -/
theorem rewrite_error {f f' : Failure} (hsteps : c'.steps = c.steps)
    (hover : f'.overBudget = f.overBudget) (hcommit : f.committed = true → f'.committed = true) :
    (Outcome.error f c : Outcome α).Rewrite (Outcome.error f' c' : Outcome β) :=
  ⟨hsteps, fun _ => hover, fun h =>
    honest_error c' fun ho => hcommit (h.committed (hover ▸ ho))⟩

/-- A success turned into a failure that lets a choice go on. -/
theorem rewrite_decline {a : α} (hsteps : c'.steps = c.steps) :
    (Outcome.ok a c).Rewrite (Outcome.error .decline c' : Outcome β) :=
  ⟨hsteps, fun _ => rfl, fun _ => honest_error c' fun h => by cases h⟩

/-- A failure that lets a choice go on turned into a success: by honesty it was not the budget
failure. -/
theorem rewrite_backtrack {f : Failure} {b : β} (hsteps : c'.steps = c.steps)
    (hf : f.committed = false) : (Outcome.error f c : Outcome α).Rewrite (Outcome.ok b c') :=
  ⟨hsteps, fun h => (h.not_overBudget hf).symm, fun _ => honest_ok b c'⟩

end Rewrite

end Outcome

namespace Parser

variable {α β : Type}

/-- A rule meters its tokens: running out of budget is a committed failure; from within the
budget, it ends within the budget or one token past it in that failure; and unless its outcome
is that failure, a larger budget changes nothing. -/
structure Metered (p : Parser α) : Prop where
  honest : ∀ budget c, (p budget c).Honest
  within : ∀ budget c, c.steps ≤ budget → (p budget c).WithinBudget budget
  stable : ∀ budget budget' c, budget ≤ budget' → (p budget c).overBudget = false →
    p budget' c = p budget c

/-- A rule that reads no token and ignores the budget, and never fails because of it. -/
theorem metered_of_const {p : Parser α} (hbudget : ∀ budget budget' c, p budget' c = p budget c)
    (hsteps : ∀ budget c, (p budget c).cursor.steps = c.steps)
    (hover : ∀ budget c, (p budget c).overBudget = false) : Metered p where
  honest budget c f c' h hf := by
    have := hover budget c
    rw [h, Outcome.overBudget_error, hf] at this
    cases this
  within budget c hc := .inl ((hsteps budget c).symm ▸ hc)
  stable budget budget' c _ _ := hbudget budget budget' c

theorem metered_pure (a : α) : Metered (pure a : Parser α) :=
  metered_of_const (fun _ _ _ => rfl) (fun _ _ => rfl) (fun _ _ => rfl)

theorem metered_position : Metered position :=
  metered_of_const (fun _ _ _ => rfl) (fun _ _ => rfl) (fun _ _ => rfl)

theorem metered_decline : Metered (decline : Parser α) :=
  metered_of_const (fun _ _ _ => rfl) (fun _ _ => rfl) (fun _ _ => rfl)

theorem metered_warn (span : Span) (message : String) : Metered (warn span message) :=
  metered_of_const (fun _ _ _ => rfl) (fun _ _ => rfl) (fun _ _ => rfl)

section Bind

variable {p : Parser α} {f : α → Parser β} {g : α → β} {budget : Nat} {c c₁ : Cursor}

theorem bind_of_ok {a : α} (h : p budget c = .ok a c₁) :
    (p >>= f) budget c = f a budget c₁ := by
  simp [bind, h]

theorem bind_of_error {e : Failure} (h : p budget c = .error e c₁) :
    (p >>= f) budget c = .error e c₁ := by
  simp [bind, h]

theorem map_of_ok {a : α} (h : p budget c = .ok a c₁) : (g <$> p) budget c = .ok (g a) c₁ := by
  simp only [Functor.map, h]
  rfl

theorem map_of_error {e : Failure} (h : p budget c = .error e c₁) :
    (g <$> p) budget c = .error e c₁ := by
  simp only [Functor.map, h]

theorem cut_of_ok {a : α} (h : p budget c = .ok a c₁) : cut p budget c = .ok a c₁ := by
  simp [cut, h]

theorem cut_of_error {e : Failure} (h : p budget c = .error e c₁) :
    cut p budget c = .error { e with committed := true } c₁ := by
  simp [cut, h]

end Bind

theorem metered_bind {p : Parser α} {f : α → Parser β} (hp : Metered p)
    (hf : ∀ a, Metered (f a)) : Metered (p >>= f) where
  honest budget c := by
    cases hpc : p budget c with
    | ok a c₁ =>
      rw [bind_of_ok hpc]
      exact (hf a).honest budget c₁
    | error e c₁ =>
      rw [bind_of_error hpc]
      exact Outcome.honest_error c₁ ((hpc ▸ hp.honest budget c).committed)
  within budget c hc := by
    have hw := hp.within budget c hc
    cases hpc : p budget c with
    | ok a c₁ =>
      rw [hpc] at hw
      rw [bind_of_ok hpc]
      exact (hf a).within budget c₁ (hw.steps_le rfl)
    | error e c₁ =>
      rw [hpc] at hw
      rw [bind_of_error hpc]
      exact hw
  stable budget budget' c hle ho := by
    cases hpc : p budget c with
    | ok a c₁ =>
      rw [bind_of_ok hpc] at ho ⊢
      have hp' : p budget' c = .ok a c₁ :=
        (hp.stable budget budget' c hle (by rw [hpc]; rfl)).trans hpc
      rw [bind_of_ok hp']
      exact (hf a).stable budget budget' c₁ hle ho
    | error e c₁ =>
      rw [bind_of_error hpc] at ho ⊢
      have hp' : p budget' c = .error e c₁ :=
        (hp.stable budget budget' c hle (by rw [hpc]; exact ho)).trans hpc
      rw [bind_of_error hp']

theorem Metered.of_eq {p q : Parser α} (hp : Metered p)
    (h : ∀ budget c, q budget c = p budget c) : Metered q := by
  have hq : q = p := funext fun budget => funext (h budget)
  rw [hq]
  exact hp

/-- A rule that runs `p` and goes on with a rule chosen by its value and by the cursor it
started from, which it may go back to. -/
theorem metered_bindFrom {p : Parser α} {k : α → Cursor → Parser β} (hp : Metered p)
    (hk : ∀ a c, Metered (k a c)) : Metered fun budget c => (p >>= fun a => k a c) budget c where
  honest budget c := (metered_bind hp fun a => hk a c).honest budget c
  within budget c := (metered_bind hp fun a => hk a c).within budget c
  stable budget budget' c := (metered_bind hp fun a => hk a c).stable budget budget' c

/-- The same for a rule that is such a run by its definition, matching on `p`'s outcome by
hand. -/
theorem metered_of_bindFrom {q : Parser β} {p : Parser α} {k : α → Cursor → Parser β}
    (hp : Metered p) (hk : ∀ a c, Metered (k a c))
    (hq : ∀ budget c, q budget c = (p >>= fun a => k a c) budget c) : Metered q :=
  (metered_bindFrom hp hk).of_eq hq

theorem metered_map (g : α → β) {p : Parser α} (hp : Metered p) : Metered (g <$> p) :=
  metered_bind hp fun _ => metered_pure _

/-! ### Combinators that rewrite an outcome -/

/-- A rule that runs `p` once, from a cursor `move c` that has read as many tokens as `c`, and
rewrites its outcome without the budget. -/
theorem metered_of_rewrite {p : Parser α} {q : Parser β} (move : Cursor → Cursor)
    (hmove : ∀ c, (move c).steps = c.steps) (hp : Metered p)
    (hq : ∀ budget c, (p budget (move c)).Rewrite (q budget c))
    (hdet : ∀ budget budget' c, p budget' (move c) = p budget (move c) →
      q budget' c = q budget c) :
    Metered q where
  honest budget c := (hq budget c).honest (hp.honest budget (move c))
  within budget c hc :=
    (hp.within budget (move c) ((hmove c).symm ▸ hc)).congr (hq budget c).steps
      ((hq budget c).overBudget (hp.honest budget (move c)))
  stable budget budget' c hle ho := by
    have hover := (hq budget c).overBudget (hp.honest budget (move c))
    rw [hover] at ho
    exact hdet budget budget' c (hp.stable budget budget' (move c) hle ho)

section Wrappers

variable {p : Parser α}

theorem metered_cut (hp : Metered p) : Metered (cut p) := by
  refine metered_of_rewrite (fun c => c) (fun _ => rfl) hp (fun budget c => ?_)
    fun budget budget' c h => by simp only [cut, h]
  cases hpc : p budget c with
  | ok a c₁ =>
    simp only [cut, hpc]
    exact .refl _
  | error e c₁ =>
    simp only [cut, hpc]
    exact Outcome.rewrite_error rfl rfl fun _ => rfl

theorem metered_note (x : Context) (hp : Metered p) : Metered (note x p) := by
  refine metered_of_rewrite (fun c => c) (fun _ => rfl) hp (fun budget c => ?_)
    fun budget budget' c h => by simp only [note, h]
  cases hpc : p budget c with
  | ok a c₁ =>
    simp only [note, hpc]
    exact .refl _
  | error e c₁ =>
    simp only [note, hpc]
    exact Outcome.rewrite_error rfl rfl id

theorem metered_commit (what : String) (hp : Metered p) : Metered (commit p what) :=
  metered_note _ (metered_cut hp)

theorem metered_hardError (l : String) : Metered (hardError l : Parser α) :=
  metered_note _ (metered_cut metered_decline)

theorem metered_optional (hp : Metered p) : Metered (optional p) := by
  refine metered_of_rewrite (fun c => c) (fun _ => rfl) hp (fun budget c => ?_)
    fun budget budget' c h => by simp only [optional, h]
  cases hpc : p budget c with
  | ok a c₁ =>
    simp only [optional, hpc]
    exact Outcome.rewrite_ok rfl
  | error e c₁ =>
    simp only [optional, hpc]
    split
    · exact Outcome.rewrite_error rfl rfl id
    · next hf => exact Outcome.rewrite_backtrack rfl (by simpa using hf)

theorem metered_peek (hp : Metered p) : Metered (peek p) := by
  refine metered_of_rewrite (fun c => c) (fun _ => rfl) hp (fun budget c => ?_)
    fun budget budget' c h => by simp only [peek, h]
  cases hpc : p budget c with
  | ok a c₁ =>
    simp only [peek, hpc]
    exact Outcome.rewrite_ok rfl
  | error e c₁ =>
    simp only [peek, hpc]
    exact .refl _

theorem metered_notFollowedBy (hp : Metered p) : Metered (notFollowedBy p) := by
  refine metered_of_rewrite (fun c => c) (fun _ => rfl) hp (fun budget c => ?_)
    fun budget budget' c h => by simp only [notFollowedBy, h]
  cases hpc : p budget c with
  | ok a c₁ =>
    simp only [notFollowedBy, hpc]
    exact Outcome.rewrite_decline rfl
  | error e c₁ =>
    simp only [notFollowedBy, hpc]
    split
    · exact Outcome.rewrite_error rfl rfl id
    · next hf => exact Outcome.rewrite_backtrack rfl (by simpa using hf)

theorem metered_verify (test : α → Bool) (hp : Metered p) : Metered (verify p test) := by
  refine metered_of_rewrite (fun c => c) (fun _ => rfl) hp (fun budget c => ?_)
    fun budget budget' c h => by simp only [verify, h]
  cases hpc : p budget c with
  | ok a c₁ =>
    simp only [verify, hpc]
    split
    · exact .refl _
    · exact Outcome.rewrite_decline rfl
  | error e c₁ =>
    simp only [verify, hpc]
    exact .refl _

theorem metered_withSet (set : TokenSet) (hp : Metered p) : Metered (withSet set p) := by
  refine metered_of_rewrite (fun c => { c with set }) (fun _ => rfl) hp (fun budget c => ?_)
    fun budget budget' c h => by simp only [withSet, h]
  cases hpc : p budget { c with set } with
  | ok a c₁ =>
    simp only [withSet, hpc]
    exact Outcome.rewrite_ok rfl
  | error e c₁ =>
    simp only [withSet, hpc]
    exact Outcome.rewrite_error rfl rfl id

/-- A choice runs the second rule only after the first failed without committing, which by
honesty was not the budget failure, so within the budget. -/
theorem metered_orElse {q : Parser α} (hp : Metered p) (hq : Metered q) :
    Metered (p.orElse q) where
  honest budget c := by
    have hh := hp.honest budget c
    cases hpc : p budget c with
    | ok a c₁ => simpa only [orElse, hpc] using Outcome.honest_ok a c₁
    | error e c₁ =>
      simp only [orElse, hpc]
      split
      · exact hpc ▸ hh
      · exact hq.honest budget _
  within budget c hc := by
    have hw := hp.within budget c hc
    have hh := hp.honest budget c
    cases hpc : p budget c with
    | ok a c₁ => simpa only [orElse, hpc] using hpc ▸ hw
    | error e c₁ =>
      rw [hpc] at hw hh
      simp only [orElse, hpc]
      split
      · exact hw
      · next hf => exact hq.within budget _ (hw.steps_le (hh.not_overBudget (by simpa using hf)))
  stable budget budget' c hle ho := by
    have hh := hp.honest budget c
    cases hpc : p budget c with
    | ok a c₁ =>
      have hp' := (hp.stable budget budget' c hle (by rw [hpc]; rfl)).trans hpc
      simp only [orElse, hpc, hp']
    | error e c₁ =>
      rw [hpc] at hh
      simp only [orElse, hpc] at ho
      split at ho
      · next hf =>
        have hp' := (hp.stable budget budget' c hle (by rw [hpc]; exact ho)).trans hpc
        simp only [orElse, hpc, hp', hf, ↓reduceIte]
      · next hf =>
        have hp' := (hp.stable budget budget' c hle
          (by rw [hpc]; exact hh.not_overBudget (by simpa using hf))).trans hpc
        simp only [orElse, hpc, hp', hf]
        exact hq.stable budget budget' _ hle ho

end Wrappers

/-! ### Reading tokens -/

/-- The step that spends the budget: one token more, past the budget a committed failure. -/
theorem metered_lexOne : Metered lexOne where
  honest budget c := by
    simp only [lexOne]
    split
    · exact Outcome.honest_error _ fun _ => rfl
    · split
      · exact Outcome.honest_error _ fun h => by simp [Failure.decline] at h
      · exact Outcome.honest_error _ fun h => by simp at h
      · exact Outcome.honest_ok _ _
  within budget c hc := by
    simp only [lexOne]
    split
    · exact .inr ⟨rfl, by simp; omega⟩
    · split <;> exact .inl (by simp; omega)
  stable budget budget' c hle ho := by
    simp only [lexOne] at ho ⊢
    split at ho
    · simp at ho
    · next hlt => rw [if_neg (by omega), if_neg hlt]

section Skipping

variable {budget : Nat} {c c₁ : Cursor}

theorem anyTokenFrom_of_ok {t : Token} (h : lexOne budget c = .ok t c₁) :
    anyTokenFrom budget c =
      if c.set.ignores t.kind then anyTokenFrom budget c₁ else .ok t c₁ := by
  rw [anyTokenFrom]
  split
  · next t' c' h' =>
    rw [h] at h'
    cases h'
    rfl
  · next f c' h' =>
    rw [h] at h'
    cases h'

theorem anyTokenFrom_of_error {f : Failure} (h : lexOne budget c = .error f c₁) :
    anyTokenFrom budget c = .error f c₁ := by
  rw [anyTokenFrom]
  split
  · next t' c' h' =>
    rw [h] at h'
    cases h'
  · next f' c' h' =>
    rw [h] at h'
    cases h'
    rfl

theorem skipFrom_of_ok {t : Token} (h : lexOne budget c = .ok t c₁) :
    skipFrom budget c =
      if c.set.ignores t.kind then skipFrom budget c₁ else .ok () (c₁.resetTo c) := by
  rw [skipFrom]
  split
  · next t' c' h' =>
    rw [h] at h'
    cases h'
    rfl
  · next f c' h' =>
    rw [h] at h'
    cases h'

theorem skipFrom_of_error {f : Failure} (h : lexOne budget c = .error f c₁) :
    skipFrom budget c = if f.committed then .error f c₁ else .ok () (c₁.resetTo c) := by
  rw [skipFrom]
  split
  · next t' c' h' =>
    rw [h] at h'
    cases h'
  · next f' c' h' =>
    rw [h] at h'
    cases h'
    rfl

end Skipping

/-! The two loops that skip ignored tokens read one token, then go on after it if it is
skipped, and otherwise stop with an outcome made from what they read without the budget. The
three facts hold of every such loop, each by recursion on the text left, which every token read
shortens. -/

section SkipLoop

variable {γ : Type} {F : Parser γ} {K : Cursor → Token → Cursor → Outcome γ}
  {E : Cursor → Failure → Cursor → Outcome γ}
  (hok : ∀ budget c t c₁, lexOne budget c = .ok t c₁ →
    F budget c = if c.set.ignores t.kind then F budget c₁ else K c t c₁)
  (herr : ∀ budget c f c₁, lexOne budget c = .error f c₁ → F budget c = E c f c₁)
  (hK : ∀ c t c₁, (Outcome.ok t c₁).Rewrite (K c t c₁))
  (hE : ∀ c f c₁, (Outcome.error f c₁ : Outcome Token).Rewrite (E c f c₁))
include hok herr hK hE

theorem skipLoop_honest (budget : Nat) (c : Cursor) : (F budget c).Honest := by
  have hh := metered_lexOne.honest budget c
  cases hlex : lexOne budget c with
  | ok t c₁ =>
    rw [hok budget c t c₁ hlex]
    split
    · exact skipLoop_honest budget c₁
    · exact (hK c t c₁).honest (hlex ▸ hh)
  | error f c₁ =>
    rw [herr budget c f c₁ hlex]
    exact (hE c f c₁).honest (hlex ▸ hh)
termination_by c.rest.length
decreasing_by exact lexOne_rest_lt ‹_›

theorem skipLoop_within (budget : Nat) (c : Cursor) (hc : c.steps ≤ budget) :
    (F budget c).WithinBudget budget := by
  have hw := metered_lexOne.within budget c hc
  have hh := metered_lexOne.honest budget c
  cases hlex : lexOne budget c with
  | ok t c₁ =>
    rw [hlex] at hw hh
    rw [hok budget c t c₁ hlex]
    split
    · exact skipLoop_within budget c₁ (hw.steps_le rfl)
    · exact hw.congr (hK c t c₁).steps ((hK c t c₁).overBudget hh)
  | error f c₁ =>
    rw [hlex] at hw hh
    rw [herr budget c f c₁ hlex]
    exact hw.congr (hE c f c₁).steps ((hE c f c₁).overBudget hh)
termination_by c.rest.length
decreasing_by exact lexOne_rest_lt ‹_›

omit hK in
theorem skipLoop_stable {budget budget' : Nat} (hle : budget ≤ budget') (c : Cursor)
    (ho : (F budget c).overBudget = false) : F budget' c = F budget c := by
  have hh := metered_lexOne.honest budget c
  cases hlex : lexOne budget c with
  | ok t c₁ =>
    have hlex' := (metered_lexOne.stable budget budget' c hle (by rw [hlex]; rfl)).trans hlex
    rw [hok budget c t c₁ hlex] at ho ⊢
    rw [hok budget' c t c₁ hlex']
    split
    · next hign =>
      rw [if_pos hign] at ho
      exact skipLoop_stable hle c₁ ho
    · rfl
  | error f c₁ =>
    rw [hlex] at hh
    rw [herr budget c f c₁ hlex] at ho ⊢
    -- the failure is rewritten without the budget, so it was not the budget failure
    have hfo : (Outcome.error f c₁ : Outcome Token).overBudget = false := by
      rw [← (hE c f c₁).overBudget hh]
      exact ho
    have hlex' := (metered_lexOne.stable budget budget' c hle (by rw [hlex]; exact hfo)).trans hlex
    rw [herr budget' c f c₁ hlex']
termination_by c.rest.length
decreasing_by exact lexOne_rest_lt ‹_›

theorem metered_skipLoop : Metered F :=
  ⟨skipLoop_honest hok herr hK hE, skipLoop_within hok herr hK hE,
    fun _ _ c hle ho => skipLoop_stable hok herr hE hle c ho⟩

end SkipLoop

theorem metered_anyToken : Metered anyToken :=
  metered_skipLoop (K := fun _ t c₁ => .ok t c₁) (E := fun _ f c₁ => .error f c₁)
    (fun _ _ _ _ h => anyTokenFrom_of_ok h) (fun _ _ _ _ h => anyTokenFrom_of_error h)
    (fun _ _ _ => .refl _) (fun _ _ _ => .refl _)

theorem metered_skipIgnored : Metered skipIgnored := by
  refine metered_skipLoop (K := fun c _ c₁ => .ok () (c₁.resetTo c))
    (E := fun c f c₁ => if f.committed then .error f c₁ else .ok () (c₁.resetTo c))
    (fun _ _ _ _ h => skipFrom_of_ok h) (fun _ _ _ _ h => skipFrom_of_error h)
    (fun _ _ _ => Outcome.rewrite_ok rfl) fun c f c₁ => ?_
  -- a failure to read is passed on if committed, and otherwise ends the skipping
  split
  · exact Outcome.rewrite_error rfl rfl id
  · next hf => exact Outcome.rewrite_backtrack rfl (by simpa using hf)

theorem metered_kind (k : TokenKind) : Metered (kind k) :=
  metered_verify _ metered_anyToken

theorem metered_text (s : String) : Metered (text s) :=
  metered_verify _ metered_anyToken

theorem metered_ident : Metered ident :=
  metered_verify _ metered_anyToken

theorem metered_endOfInput : Metered endOfInput :=
  metered_notFollowedBy metered_anyToken

theorem metered_spanned {p : Parser α} (hp : Metered p) : Metered (spanned p) :=
  metered_bind metered_skipIgnored fun _ => metered_bind metered_position fun _ =>
    metered_bind hp fun _ => metered_bind metered_position fun _ => metered_pure _

/-! ### Repetition -/

/-- A rule chosen by a number read off the cursor, each choice metered. -/
theorem metered_byCursor {q : Nat → Parser α} (g : Cursor → Nat) (hq : ∀ n, Metered (q n)) :
    Metered fun budget c => q (g c) budget c where
  honest budget c := (hq (g c)).honest budget c
  within budget c := (hq (g c)).within budget c
  stable budget budget' c := (hq (g c)).stable budget budget' c

/-- One more round of a repetition is an optional `p` and, after it, the rest. -/
theorem manyFor_succ (p : Parser α) (fuel : Nat) :
    manyFor p (fuel + 1) =
      (optional p >>= fun o => o.elim (pure []) fun a => (a :: ·) <$> manyFor p fuel) := by
  funext budget c
  simp only [manyFor, optional, bind, Functor.map]
  cases p budget c with
  | ok a c₁ =>
    dsimp only [Option.elim]
    cases manyFor p fuel budget c₁ <;> rfl
  | error f c₁ =>
    dsimp only
    split <;> rfl

theorem metered_manyFor {p : Parser α} (hp : Metered p) : ∀ fuel, Metered (manyFor p fuel)
  | 0 => metered_pure _
  | fuel + 1 => by
    rw [manyFor_succ]
    refine metered_bind (metered_optional hp) fun o => ?_
    cases o with
    | none => exact metered_pure _
    | some a => exact metered_map _ (metered_manyFor hp fuel)

theorem metered_many {p : Parser α} (hp : Metered p) : Metered (many p) :=
  metered_byCursor _ (metered_manyFor hp)

/-- One more round after a first item is an optional separator and item, and after it the
rest. -/
theorem sepTailFor_succ (p : Parser α) (sep : Parser β) (fuel : Nat) :
    sepTailFor p sep (fuel + 1) =
      (optional (sep >>= fun _ => p) >>= fun o =>
        o.elim (pure []) fun a => (a :: ·) <$> sepTailFor p sep fuel) := by
  funext budget c
  simp only [sepTailFor, optional, bind, Functor.map]
  cases sep budget c with
  | ok b c₁ =>
    dsimp only
    cases p budget c₁ with
    | ok a c₂ =>
      dsimp only [Option.elim]
      cases sepTailFor p sep fuel budget c₂ <;> rfl
    | error f c₂ =>
      dsimp only
      split <;> rfl
  | error f c₁ =>
    dsimp only
    split <;> rfl

theorem metered_sepTailFor {p : Parser α} {sep : Parser β} (hp : Metered p) (hsep : Metered sep) :
    ∀ fuel, Metered (sepTailFor p sep fuel)
  | 0 => metered_pure _
  | fuel + 1 => by
    rw [sepTailFor_succ]
    refine metered_bind (metered_optional (metered_bind hsep fun _ => hp)) fun o => ?_
    cases o with
    | none => exact metered_pure _
    | some a => exact metered_map _ (metered_sepTailFor hp hsep fuel)

theorem metered_sepBy1 {p : Parser α} {sep : Parser β} (hp : Metered p) (hsep : Metered sep) :
    Metered (sepBy1 p sep) :=
  metered_bind hp fun _ => metered_bind (metered_byCursor _ (metered_sepTailFor hp hsep))
    fun _ => metered_pure _

theorem sepBy_eq (p : Parser α) (sep : Parser β) :
    sepBy p sep = (optional p >>= fun o => o.elim (pure []) fun a =>
      (a :: ·) <$> fun budget c => sepTailFor p sep (c.rest.length + 1) budget c) := by
  funext budget c
  simp only [sepBy, bind, Functor.map]
  cases optional p budget c with
  | ok o c₁ =>
    cases o with
    | none => rfl
    | some a =>
      dsimp only [Option.elim]
      cases sepTailFor p sep (c₁.rest.length + 1) budget c₁ <;> rfl
  | error f c₁ => rfl

theorem metered_sepBy {p : Parser α} {sep : Parser β} (hp : Metered p) (hsep : Metered sep) :
    Metered (sepBy p sep) := by
  rw [sepBy_eq]
  refine metered_bind (metered_optional hp) fun o => ?_
  cases o with
  | none => exact metered_pure _
  | some a => exact metered_map _ (metered_byCursor _ (metered_sepTailFor hp hsep))

end Parser

namespace Grammar

open ShaderLink.Parser

variable {α : Type}

theorem metered_outOfFuel : Metered (outOfFuel : Parser α) :=
  metered_of_const (fun _ _ _ => rfl) (fun _ _ => rfl) (fun _ _ => rfl)

/-! ### Directive lines -/

theorem metered_separator : Metered separator :=
  metered_orElse (metered_text _) (metered_orElse (metered_text _) (metered_text _))

theorem metered_relativeMarkers : Metered relativeMarkers :=
  metered_many (metered_map _ (metered_kind _))

theorem metered_word : Metered word := metered_map _ (metered_kind _)

theorem metered_skipLineBreaks : Metered skipLineBreaks :=
  metered_bind (metered_many (metered_kind _)) fun _ => metered_pure _

theorem metered_asClause : Metered asClause :=
  metered_bind (metered_text _) fun _ => metered_commit _ metered_word

theorem metered_importArgs : Metered importArgs :=
  metered_bind (metered_text _) fun _ =>
    metered_bind (metered_sepBy (metered_map _ (metered_orElse (metered_kind _) (metered_kind _)))
      (metered_text _)) fun _ =>
    metered_bind (metered_commit _ (metered_text _)) fun _ => metered_pure _

/-- The import rules at one fuel meter their tokens. -/
structure ImportMetered (fuel : Nat) : Prop where
  tree : Metered (importTree fuel)
  after : ∀ lead, Metered (importTreeAfter fuel lead)
  list : Metered (importList fuel)
  listAfter : ∀ acc, Metered (importListAfter fuel acc)

theorem ImportMetered.succ {fuel : Nat} (ih : ImportMetered fuel) : ImportMetered (fuel + 1) where
  tree := by
    rw [importTree]
    exact metered_bind metered_relativeMarkers ih.after
  after lead := by
    rw [importTreeAfter]
    refine metered_bind (metered_optional (metered_text _)) fun _ => ?_
    split
    · exact metered_bind ih.list fun _ => metered_pure _
    refine metered_bind (metered_optional (metered_text _)) fun _ => ?_
    split
    · exact metered_bind (metered_optional metered_asClause) fun _ => metered_pure _
    refine metered_bind (metered_commit _ metered_word) fun _ => ?_
    refine metered_bind (metered_optional metered_separator) fun _ => ?_
    split
    · exact ih.after _
    · exact metered_bind (metered_optional metered_importArgs) fun _ =>
        metered_bind (metered_optional metered_asClause) fun _ => metered_pure _
  list := by
    rw [importList]
    exact ih.listAfter []
  listAfter acc := by
    rw [importListAfter]
    refine metered_bind metered_skipLineBreaks fun _ => ?_
    refine metered_bind (metered_optional (metered_text _)) fun _ => ?_
    split
    · exact metered_pure _
    refine metered_bind ih.tree fun _ => metered_bind metered_skipLineBreaks fun _ => ?_
    refine metered_bind (metered_optional (metered_text _)) fun _ => ?_
    split
    · exact metered_bind metered_skipLineBreaks fun _ =>
        metered_bind (metered_commit _ (metered_text _)) fun _ => metered_pure _
    · exact ih.listAfter _

theorem importMetered : ∀ fuel, ImportMetered fuel
  | 0 => ⟨metered_outOfFuel, fun _ => metered_outOfFuel, metered_outOfFuel,
      fun _ => metered_outOfFuel⟩
  | fuel + 1 => (importMetered fuel).succ

theorem metered_modulePath : Metered modulePath := by
  refine metered_bind metered_relativeMarkers fun _ =>
    metered_bind (metered_sepBy1 metered_word metered_separator) fun _ => ?_
  -- a trailing file extension is dropped
  dsimp only
  split <;> exact metered_pure _

theorem metered_importDirective (fuel : Nat) : Metered (importDirective fuel) :=
  metered_bind (importMetered fuel).tree fun _ =>
    metered_bind (metered_optional (metered_bind (metered_text _) fun _ =>
      metered_commit _ metered_modulePath)) fun _ => metered_pure _

theorem metered_exportArgs : Metered exportArgs :=
  metered_map _ (metered_optional metered_importArgs)

theorem metered_lineEnd : Metered lineEnd :=
  metered_orElse
    (metered_bind (metered_text _) fun _ =>
      metered_bind (metered_optional (metered_kind _)) fun _ => metered_pure _)
    (metered_orElse (metered_map _ (metered_kind _)) metered_endOfInput)

/-! ### Declarations -/

/-- A success that goes back to where a rule started reads nothing more. -/
theorem metered_backTo (a : α) (c : Cursor) : Metered fun _ c' => .ok a (c'.resetTo c) :=
  metered_of_const (fun _ _ _ => rfl) (fun _ _ => rfl) (fun _ _ => rfl)

/-- A choice made by a test that reads nothing. -/
theorem metered_ite {b : Prop} [Decidable b] {p q : Parser α} (hp : Metered p) (hq : Metered q) :
    Metered fun budget c => if b then p budget c else q budget c := by
  by_cases hb : b
  · simpa only [hb, if_true] using hp
  · simpa only [hb, if_false] using hq

theorem metered_refPath (first : Token) : Metered (refPath first) := by
  unfold refPath
  refine metered_bind (metered_many (metered_bind (metered_text _) fun _ => metered_kind _))
    fun more => ?_
  dsimp only
  refine metered_bind ?_ fun r => ?_
  · -- the dots are kept for a call, and otherwise given back
    apply metered_of_bindFrom
      (k := fun r c => fun budget c' => if r.2 || r.1.isEmpty then Outcome.ok r c'
        else Outcome.ok r (c'.resetTo c))
      ?hp (fun r c => metered_ite (metered_pure r) (metered_backTo r c)) ?hq
    case hq =>
      intro budget c
      split
      · next h =>
        refine Eq.trans ?_ (bind_of_ok h).symm
        rfl
      · next h => exact Eq.trans rfl (bind_of_error h).symm
    case hp =>
      exact metered_bind (metered_many (metered_bind (metered_text _) fun _ => metered_kind _))
        fun _ => metered_bind (metered_optional (metered_peek (metered_text _))) fun _ =>
          metered_pure _
  · obtain ⟨dotted, isCall⟩ := r
    dsimp only
    split <;> exact metered_pure _

/-- The body rules at one fuel meter their tokens. -/
structure BodyMetered (fuel : Nat) : Prop where
  args : ∀ name, Metered (attributeArgs fuel name)
  body : ∀ closer mode, Metered (bodyUntil fuel closer mode)
  rest : ∀ closer mode events pending previous,
    Metered (bodyAfter fuel closer mode events pending previous)

theorem BodyMetered.succ {fuel : Nat} (ih : BodyMetered fuel) : BodyMetered (fuel + 1) where
  args name := by
    rw [attributeArgs]
    refine metered_bind (metered_optional (metered_text _)) fun _ => ?_
    split
    · exact metered_pure _
    · exact metered_bind (ih.body _ _) fun _ => metered_pure _
  body closer mode := by
    rw [bodyUntil]
    exact ih.rest _ _ _ _ _
  rest closer mode events pending previous := by
    rw [bodyAfter]
    refine metered_bind (metered_commit _ metered_anyToken) fun tok => ?_
    dsimp only
    split
    · -- a symbol: a closer, a bracket to skip over, an attribute or a member access
      split
      · exact metered_pure _
      split
      · exact ih.rest _ _ _ _ _
      split
      · exact metered_bind (ih.body _ _) fun _ => ih.rest _ _ _ _ _
      split
      · exact metered_bind (ih.body _ _) fun _ => ih.rest _ _ _ _ _
      split
      · exact metered_bind (ih.body _ _) fun _ => ih.rest _ _ _ _ _
      split
      · exact metered_hardError _
      split
      · exact metered_bind (metered_commit _ (metered_kind _)) fun _ =>
          metered_bind (ih.args _) fun _ => ih.rest _ _ _ _ _
      split
      · exact metered_bind (metered_optional (metered_kind _)) fun _ => ih.rest _ _ _ _ _
      · exact ih.rest _ _ _ _ _
    · -- a word: `for`, a declaration, a keyword, a parameter or a reference
      split
      · exact metered_bind (metered_commit _ (metered_text _)) fun _ =>
          metered_bind (ih.body _ _) fun _ =>
          metered_bind (metered_commit _ (metered_text _)) fun _ =>
          metered_bind (ih.body _ _) fun _ => ih.rest _ _ _ _ _
      split
      · exact metered_bind (metered_optional (metered_bind (metered_text _) fun _ => ih.body _ _))
          fun _ => metered_bind (metered_commit _ metered_ident) fun _ => ih.rest _ _ _ _ _
      split
      · exact ih.rest _ _ _ _ _
      split
      · refine metered_bind (metered_optional (metered_peek (metered_text _))) fun _ => ?_
        split
        · exact ih.rest _ _ _ _ _
        · refine metered_bind (metered_refPath tok) fun r => ?_
          obtain ⟨path, span, isCall⟩ := r
          exact ih.rest _ _ _ _ _
      · refine metered_bind (metered_refPath tok) fun r => ?_
        obtain ⟨path, span, isCall⟩ := r
        exact ih.rest _ _ _ _ _
    · exact ih.rest _ _ _ _ _

theorem bodyMetered : ∀ fuel, BodyMetered fuel
  | 0 => ⟨fun _ => metered_outOfFuel, fun _ _ => metered_outOfFuel,
      fun _ _ _ _ _ => metered_outOfFuel⟩
  | fuel + 1 => (bodyMetered fuel).succ

theorem metered_attributes (fuel : Nat) : Metered (attributes fuel) :=
  metered_bind (metered_many (metered_bind (metered_text _) fun _ =>
    metered_bind (metered_commit _ (metered_kind _)) fun _ => (bodyMetered fuel).args _))
    fun _ => metered_pure _

/-- The type of a structure member: the rule matches on its first token by hand, and passes
the failure to read it on as it is. -/
theorem metered_memberType : ∀ fuel depth events, Metered (memberType fuel depth events)
  | 0, _, _ => metered_outOfFuel
  | fuel + 1, depth, events => by
    rw [memberType]
    refine metered_of_bindFrom (k := ?k) (metered_commit "`\x7d`" metered_anyToken) ?hk ?heq
    case heq =>
      intro budget c
      cases h : commit anyToken "`\x7d`" budget c with
      | error f c' => rw [bind_of_error h]
      | ok t c' =>
        rw [bind_of_ok h]
        rfl
    case hk =>
      intro t c
      dsimp only
      refine metered_ite (metered_memberType fuel _ _) ?_
      refine metered_ite (metered_memberType fuel _ _) ?_
      refine metered_ite (metered_pure _) ?_
      refine metered_ite (metered_backTo _ c) ?_
      refine metered_ite (metered_bind ((bodyMetered fuel).body _ _) fun _ =>
        metered_memberType fuel _ _) ?_
      refine metered_ite (metered_bind (metered_refPath t) fun r => ?_)
        (metered_memberType fuel _ _)
      obtain ⟨path, span, isCall⟩ := r
      exact metered_memberType fuel _ _

theorem metered_structMembers : ∀ fuel events, Metered (structMembers fuel events)
  | 0, _ => metered_outOfFuel
  | fuel + 1, events => by
    rw [structMembers]
    refine metered_bind (metered_optional (metered_text _)) fun _ => ?_
    split
    · exact metered_pure _
    · exact metered_bind (metered_attributes fuel) fun _ =>
        metered_bind (metered_commit _ (metered_kind _)) fun _ =>
        metered_bind (metered_commit _ (metered_text _)) fun _ =>
        metered_bind (metered_memberType fuel 0 #[]) fun _ => metered_structMembers fuel _

theorem metered_function (fuel : Nat) : Metered (function fuel) :=
  metered_bind (metered_text _) fun _ => metered_bind (metered_commit _ metered_ident) fun _ =>
    metered_bind (metered_commit _ (metered_text _)) fun _ =>
    metered_bind ((bodyMetered fuel).body _ _) fun _ =>
    metered_bind ((bodyMetered fuel).body _ _) fun _ =>
    metered_bind ((bodyMetered fuel).body _ _) fun _ => metered_pure _

theorem metered_structDecl (fuel : Nat) : Metered (structDecl fuel) :=
  metered_bind (metered_text _) fun _ => metered_bind (metered_commit _ metered_ident) fun _ =>
    metered_bind (metered_commit _ (metered_text _)) fun _ =>
    metered_bind (metered_structMembers fuel #[]) fun _ => metered_pure _

theorem metered_globalValue (fuel : Nat) : Metered (globalValue fuel) :=
  metered_bind (metered_orElse (metered_text _) (metered_orElse (metered_text _) (metered_text _)))
    fun _ => metered_bind (metered_optional (metered_bind (metered_text _) fun _ =>
      (bodyMetered fuel).body _ _)) fun _ =>
    metered_bind (metered_commit _ metered_ident) fun _ =>
    metered_bind ((bodyMetered fuel).body _ _) fun _ => metered_pure _

theorem metered_typeAlias (fuel : Nat) : Metered (typeAlias fuel) :=
  metered_bind (metered_text _) fun _ => metered_bind (metered_commit _ metered_ident) fun _ =>
    metered_bind (metered_commit _ (metered_text _)) fun _ =>
    metered_bind ((bodyMetered fuel).body _ _) fun _ => metered_pure _

/-- What follows the optional `export` keyword: attributes, then a declaration. -/
theorem metered_declarationBody (fuel : Nat) :
    Metered (spanned do
      let attrs ← attributes fuel
      let d ← (function fuel).orElse ((structDecl fuel).orElse
        ((globalValue fuel).orElse (typeAlias fuel)))
      pure (attrs, d)) :=
  metered_spanned (metered_bind (metered_attributes fuel) fun _ =>
    metered_bind (metered_orElse (metered_function fuel) (metered_orElse (metered_structDecl fuel)
      (metered_orElse (metered_globalValue fuel) (metered_typeAlias fuel)))) fun _ =>
        metered_pure _)

/-- A declaration. After the `export` keyword the rule commits the failure of what follows
by hand, and otherwise passes it on as it is; either way the outcome is that of reading the
declaration, its value completed by the keyword and the attributes. -/
theorem metered_declaration (fuel : Nat) : Metered (declaration fuel) := by
  unfold declaration
  refine metered_of_bindFrom (k := ?k) (metered_optional (metered_spanned (metered_text "export")))
    ?hk ?hq
  case hq =>
    intro budget c
    cases h : optional (spanned (text "export")) budget c with
    | error f c' => rw [bind_of_error h]
    | ok keyword c' =>
      rw [bind_of_ok h]
      rfl
  case hk =>
    intro keyword c
    dsimp only
    -- the declaration read after the keyword, completed by the keyword and the attributes
    have hread := metered_map (fun v : (Array ScopeEvent × DeclSyntax) × Span => { v.1.2 with
      span := v.2
      exportKeyword := keyword.map Prod.snd
      events := v.1.1 ++ v.1.2.events }) (metered_declarationBody fuel)
    cases keyword with
    | none =>
      refine hread.of_eq fun budget c' => ?_
      split
      · next h => exact (map_of_error h).symm
      · next h => rw [map_of_ok h]
    | some kw =>
      refine (metered_cut hread).of_eq fun budget c' => ?_
      split
      · next h => exact (cut_of_error (map_of_error h)).symm
      · next h => rw [cut_of_ok (map_of_ok h)]

/-! ### The module -/

theorem metered_moduleLine : Metered moduleLine := by
  refine metered_bind (metered_spanned (metered_bind (metered_orElse (metered_text _)
    (metered_text _)) fun _ => metered_withSet _ (metered_bind (metered_commit _ metered_modulePath)
      fun _ => metered_bind (metered_commit _ metered_lineEnd) fun _ => metered_pure _)))
    fun r => ?_
  obtain ⟨path, span⟩ := r
  exact metered_pure _

theorem metered_importLine (fuel : Nat) : Metered (importLine fuel) := by
  refine metered_bind (metered_spanned (metered_orElse
    (metered_bind (metered_text _) fun _ => metered_withSet _
      (metered_bind (metered_commit _ (metered_importDirective fuel)) fun _ =>
        metered_bind (metered_commit _ metered_lineEnd) fun _ => metered_pure _))
    (metered_bind (metered_text _) fun _ => metered_withSet _
      (metered_bind (metered_commit _ (importMetered fuel).tree) fun _ =>
        metered_bind (metered_commit _ metered_lineEnd) fun _ => metered_pure _)))) fun r => ?_
  obtain ⟨⟨tree, dialect⟩, span⟩ := r
  exact metered_pure _

theorem metered_exportLine : Metered exportLine := by
  refine metered_bind (metered_spanned (metered_bind (metered_text _) fun _ => metered_withSet _
    (metered_bind metered_exportArgs fun _ =>
      metered_bind (metered_optional metered_lineEnd) fun _ => metered_pure _))) fun r => ?_
  obtain ⟨params, span⟩ := r
  exact metered_pure _

theorem metered_passThrough (fuel : Nat) : Metered (passThrough fuel) := by
  refine metered_bind (metered_spanned (metered_orElse (metered_map _ (metered_text _))
    (metered_bind (metered_orElse (metered_text _) (metered_orElse (metered_text _)
      (metered_orElse (metered_text _) (metered_text _)))) fun _ =>
      metered_bind ((bodyMetered fuel).body _ _) fun _ => metered_pure _))) fun r => ?_
  obtain ⟨u, span⟩ := r
  exact metered_pure _

theorem metered_skipUnknown : Metered skipUnknown :=
  metered_bind metered_anyToken fun _ => metered_warn _ _

theorem metered_globalItem (fuel : Nat) : Metered (globalItem fuel) :=
  metered_orElse (metered_map _ metered_moduleLine) <|
  metered_orElse (metered_map _ (metered_importLine fuel)) <|
  metered_orElse (metered_map _ metered_exportLine) <|
  metered_orElse (metered_map _ (metered_passThrough fuel)) <|
  metered_orElse (metered_map _ (metered_declaration fuel)) <|
  metered_map _ metered_skipUnknown

/-- The whole grammar of a module meters its tokens. -/
theorem metered_topLevel (fuel : Nat) : Metered (topLevel fuel) :=
  metered_bind (metered_many (metered_globalItem fuel)) fun _ =>
    metered_bind metered_endOfInput fun _ => metered_pure _

end Grammar

namespace ParseReport

variable (module source : String) (map : SourceMap) (furthest : Nat) {f : Failure}

/-- Only the budget failure's report mentions the budget. -/
theorem ofFailure_budget (hf : f.overBudget = false) (budget budget' : Nat) :
    ofFailure module source map budget' furthest f =
      ofFailure module source map budget furthest f := by
  simp only [ofFailure, messageOf, hf, Bool.false_eq_true, ↓reduceIte]

theorem message_ofFailure_overBudget (hf : f.overBudget = true) (budget : Nat) :
    (ofFailure module source map budget furthest f).message =
      "parse step limit of " ++ toString budget ++ " exceeded" := by
  simp only [ofFailure, messageOf, hf, ↓reduceIte]

end ParseReport

/-- Reading a module, or the tokens of a text, from its start reads at most `budget` tokens,
or one more in the budget failure, which ends the run. -/
theorem reads_within_budget (text : String) (fuel budget : Nat) :
    (Grammar.topLevel fuel budget (Cursor.start text)).WithinBudget budget ∧
      (Parser.many Parser.anyToken budget (Cursor.start text)).WithinBudget budget :=
  ⟨(Grammar.metered_topLevel fuel).within budget _ (Nat.zero_le _),
    (Parser.metered_many Parser.metered_anyToken).within budget _ (Nat.zero_le _)⟩

/-- Unless parsing a module ends in the budget failure, every larger budget gives the same
result: the same module, or the same report. -/
theorem parseModule_budget_stable (text path : String) (options : ParseOptions) (m : Nat)
    (hm : options.budget ≤ m)
    (h : ∀ r, parseModule text path options = .error r →
      r.message ≠ "parse step limit of " ++ toString options.budget ++ " exceeded") :
    parseModule text path { options with budget := m } = parseModule text path options := by
  simp only [parseModule] at h ⊢
  have hrule := Grammar.metered_topLevel
    (grammarFuel (applyConditions text path options.conditions).map.dest)
  cases hrun : Grammar.topLevel
    (grammarFuel (applyConditions text path options.conditions).map.dest) options.budget
    (Cursor.start (applyConditions text path options.conditions).map.dest) with
  | ok items c =>
    rw [hrule.stable _ _ _ hm (by rw [hrun]; rfl), hrun]
  | error f c =>
    cases hf : f.overBudget
    · rw [hrule.stable _ _ _ hm (by rw [hrun]; exact hf), hrun]
      dsimp only
      rw [ParseReport.ofFailure_budget _ _ _ _ hf]
    · -- the budget failure: its report is the one the hypothesis rules out
      rw [hrun] at h
      exact absurd (ParseReport.message_ofFailure_overBudget _ _ _ _ hf _) (h _ rfl)

theorem emptyFunction_budget_stable :
    parseModule "fn f() \x7b\x7d" "f.wgsl" ⟨⟨[]⟩, 1000⟩ =
      parseModule "fn f() \x7b\x7d" "f.wgsl" ⟨⟨[]⟩, 200⟩ := by
  have hok : (parseModule "fn f() \x7b\x7d" "f.wgsl" ⟨⟨[]⟩, 200⟩).isOk = true := by
    decide +kernel
  refine parseModule_budget_stable _ _ ⟨⟨[]⟩, 200⟩ 1000 (by decide) fun r hr => ?_
  rw [hr] at hok
  cases hok

end ShaderLink
