import ShaderLink.Scope

/-!
# Binding references to declarations

A scope tree is built from `ScopeTree.empty` by opening scopes inside existing ones and adding
identifiers to existing scopes, with `bindAll` run in between (`ScopeTree.Reachable`). Every
such tree is well formed (`ScopeTree.WellFormed`): a parent is created before its child, every
identifier belongs to a scope of the tree, and each scope lists exactly its own identifiers in
the order they were made.

On a well-formed tree `bindAll` follows the lexical rule. A reference to `name` in scope `s`
may see a declaration of `name` made in `s` or a scope enclosing it, `k` scopes out
(`ScopeTree.outward`), when that scope is a module scope or the declaration was made before
the reference (`ScopeTree.Sees`). Of those, it is bound to the one in the nearest scope, the
latest made there (`ScopeTree.Selects`), and stays unbound when there is none. Declarations,
references of several segments and references bound before keep what they have
(`bindAll_binds_by_lexical_rule`).

The walk outward is `findDeclFrom`, whose fuel is the number of scopes: as parents come before
their children, the walk never runs out before reaching the root (`findDeclFrom_spec`). Every
binding made this way points to a declaration of the reference's name in an enclosing scope,
and later steps keep that true, since they change no parent and no identifier but bindings
(`ScopeTree.BindingsEnclose`).
-/

namespace ShaderLink

namespace ScopeTree

/-! ### Views of a tree -/

/-- The parent of scope `s`. -/
def parent? (t : ScopeTree) (s : Nat) : Option Nat := (t.scopes[s]?).bind (·.parent)

/-- The kind of scope `s`. -/
def kind? (t : ScopeTree) (s : Nat) : Option ScopeKind := (t.scopes[s]?).map (·.kind)

/-- The identifiers listed in scope `s`. -/
def identsOf? (t : ScopeTree) (s : Nat) : Option (List Nat) := (t.scopes[s]?).map (·.idents.toList)

/-- The scope `k` steps out from `s`: `s` itself, its parent, its parent's parent, … -/
def outward (t : ScopeTree) (s : Nat) : Nat → Option Nat
  | 0 => some s
  | k + 1 => (t.parent? s).bind fun p => t.outward p k

variable {t : ScopeTree}

@[simp] theorem outward_zero (s : Nat) : t.outward s 0 = some s := rfl

theorem outward_succ_of_parent? {s p : Nat} (h : t.parent? s = some p) (k : Nat) :
    t.outward s (k + 1) = t.outward p k := by
  simp [outward, h]

theorem outward_succ_of_parent?_eq_none {s : Nat} (h : t.parent? s = none) (k : Nat) :
    t.outward s (k + 1) = none := by
  simp [outward, h]

section Steps

variable (parent scope : Nat) (kind : ScopeKind) (ikind : IdentKind) (name : String)
  (segments : Nat) (span : Span) (s : Nat)

@[simp] theorem idents_pushScope : (t.pushScope parent kind).1.idents = t.idents := rfl

@[simp] theorem size_scopes_pushScope :
    (t.pushScope parent kind).1.scopes.size = t.scopes.size + 1 := by
  simp [pushScope]

@[simp] theorem pushScope_snd : (t.pushScope parent kind).2 = t.scopes.size := rfl

theorem parent?_pushScope :
    (t.pushScope parent kind).1.parent? s = if s = t.scopes.size then some parent else t.parent? s := by
  unfold parent? pushScope
  simp only [Array.getElem?_modify, Array.getElem?_push]
  by_cases hs : s = t.scopes.size
  · subst hs
    by_cases hp : parent = t.scopes.size <;> simp [hp]
  · by_cases hp : parent = s <;> simp [hp, hs, Option.bind_map, Function.comp_def]

theorem kind?_pushScope :
    (t.pushScope parent kind).1.kind? s = if s = t.scopes.size then some kind else t.kind? s := by
  unfold kind? pushScope
  simp only [Array.getElem?_modify, Array.getElem?_push]
  by_cases hs : s = t.scopes.size
  · subst hs
    by_cases hp : parent = t.scopes.size <;> simp [hp]
  · by_cases hp : parent = s <;> simp [hp, hs, Option.map_map, Function.comp_def]

theorem identsOf?_pushScope :
    (t.pushScope parent kind).1.identsOf? s = if s = t.scopes.size then some [] else t.identsOf? s := by
  unfold identsOf? pushScope
  simp only [Array.getElem?_modify, Array.getElem?_push]
  by_cases hs : s = t.scopes.size
  · subst hs
    by_cases hp : parent = t.scopes.size <;> simp [hp]
  · by_cases hp : parent = s <;> simp [hp, hs, Option.map_map, Function.comp_def]

@[simp] theorem idents_addIdent :
    (t.addIdent scope ikind name segments span).1.idents =
      t.idents.push ⟨ikind, name, segments, span, scope, none⟩ := rfl

@[simp] theorem size_scopes_addIdent :
    (t.addIdent scope ikind name segments span).1.scopes.size = t.scopes.size := by
  simp [addIdent]

@[simp] theorem parent?_addIdent :
    (t.addIdent scope ikind name segments span).1.parent? s = t.parent? s := by
  unfold parent? addIdent
  simp only [Array.getElem?_modify]
  by_cases hp : scope = s <;> simp [hp, Option.bind_map, Function.comp_def]

@[simp] theorem kind?_addIdent :
    (t.addIdent scope ikind name segments span).1.kind? s = t.kind? s := by
  unfold kind? addIdent
  simp only [Array.getElem?_modify]
  by_cases hp : scope = s <;> simp [hp, Option.map_map, Function.comp_def]

theorem identsOf?_addIdent :
    (t.addIdent scope ikind name segments span).1.identsOf? s =
      if s = scope then (t.identsOf? s).map (· ++ [t.idents.size]) else t.identsOf? s := by
  unfold identsOf? addIdent
  simp only [Array.getElem?_modify]
  by_cases hp : s = scope
  · subst hp
    simp [Option.map_map, Function.comp_def]
  · simp [hp, Ne.symm hp]

@[simp] theorem outward_addIdent (k : Nat) :
    (t.addIdent scope ikind name segments span).1.outward s k = t.outward s k := by
  induction k generalizing s with
  | zero => rfl
  | succ k ih => simp [outward, ih]

@[simp] theorem scopes_bindAll : t.bindAll.scopes = t.scopes := rfl

@[simp] theorem size_idents_bindAll : t.bindAll.idents.size = t.idents.size := by
  simp [bindAll]

theorem getElem?_idents_bindAll (i : Nat) :
    t.bindAll.idents[i]? = (t.idents[i]?).map fun x => { x with binding := t.bindingOf i x } := by
  simp [bindAll]

@[simp] theorem parent?_bindAll : t.bindAll.parent? s = t.parent? s := rfl

@[simp] theorem kind?_bindAll : t.bindAll.kind? s = t.kind? s := rfl

@[simp] theorem outward_bindAll (k : Nat) : t.bindAll.outward s k = t.outward s k := by
  induction k generalizing s with
  | zero => rfl
  | succ k ih => simp [outward, ih]

end Steps

/-! ### Well-formed trees -/

/-- The trees that building a module's scopes can produce: from `empty`, open scopes inside
existing scopes, add identifiers to existing scopes and bind references, in any order. -/
inductive Reachable : ScopeTree → Prop
  | empty : Reachable empty
  | pushScope {t : ScopeTree} (parent : Nat) (kind : ScopeKind) :
      Reachable t → parent < t.scopes.size → Reachable (t.pushScope parent kind).1
  | addIdent {t : ScopeTree} (scope : Nat) (kind : IdentKind) (name : String) (segments : Nat)
      (span : Span) : Reachable t → scope < t.scopes.size →
      Reachable (t.addIdent scope kind name segments span).1
  | bindAll {t : ScopeTree} : Reachable t → Reachable t.bindAll

/-- What every reachable tree satisfies. -/
structure WellFormed (t : ScopeTree) : Prop where
  /-- A parent is created before its child. -/
  parent_lt : ∀ s p, t.parent? s = some p → p < s
  /-- Every identifier belongs to a scope of the tree. -/
  scope_lt : ∀ (i : Nat) (x : Ident), t.idents[i]? = some x → x.scope < t.scopes.size
  /-- A scope lists exactly the identifiers made in it, … -/
  mem_identsOf : ∀ s l, t.identsOf? s = some l →
    ∀ i, i ∈ l ↔ ∃ x : Ident, t.idents[i]? = some x ∧ x.scope = s
  /-- … in the order they were made. -/
  sorted : ∀ s l, t.identsOf? s = some l → l.Pairwise (· < ·)

theorem identsOf?_isSome_iff {s : Nat} : (t.identsOf? s).isSome ↔ s < t.scopes.size := by
  simp [identsOf?]

theorem wellFormed_empty : empty.WellFormed where
  parent_lt s p h := by
    unfold parent? at h
    cases s with
    | zero => simp [empty] at h
    | succ s => simp [empty] at h
  scope_lt i x h := by simp [empty] at h
  mem_identsOf s l h i := by
    unfold identsOf? at h
    cases s with
    | zero =>
      simp only [empty, List.getElem?_toArray, List.getElem?_cons_zero, Option.map_some,
        Option.some.injEq] at h
      subst h
      simp [empty]
    | succ s => simp [empty] at h
  sorted s l h := by
    unfold identsOf? at h
    cases s with
    | zero =>
      simp only [empty, List.getElem?_toArray, List.getElem?_cons_zero, Option.map_some,
        Option.some.injEq] at h
      subst h
      simp
    | succ s => simp [empty] at h

theorem WellFormed.pushScope {parent : Nat} {kind : ScopeKind} (hwf : t.WellFormed)
    (hp : parent < t.scopes.size) : (t.pushScope parent kind).1.WellFormed where
  parent_lt s p h := by
    rw [parent?_pushScope] at h
    split at h
    · cases h
      omega
    · exact hwf.parent_lt s p h
  scope_lt i x h := by
    rw [idents_pushScope] at h
    have := hwf.scope_lt i x h
    simp only [size_scopes_pushScope]
    omega
  mem_identsOf s l h i := by
    rw [identsOf?_pushScope] at h
    split at h
    · -- the new scope has no identifiers yet: every identifier is in an older scope
      cases h
      simp only [List.not_mem_nil, idents_pushScope, false_iff, not_exists, not_and]
      intro x hx hs
      have := hwf.scope_lt i x hx
      omega
    · exact hwf.mem_identsOf s l h i
  sorted s l h := by
    rw [identsOf?_pushScope] at h
    split at h
    · cases h
      exact List.Pairwise.nil
    · exact hwf.sorted s l h

theorem WellFormed.addIdent {scope : Nat} {kind : IdentKind} {name : String} {segments : Nat}
    {span : Span} (hwf : t.WellFormed) (hs : scope < t.scopes.size) :
    (t.addIdent scope kind name segments span).1.WellFormed where
  parent_lt s p h := hwf.parent_lt s p (by simpa using h)
  scope_lt i x h := by
    simp only [idents_addIdent, Array.getElem?_push, size_scopes_addIdent] at h ⊢
    split at h
    · cases h
      exact hs
    · exact hwf.scope_lt i x h
  mem_identsOf s l h i := by
    rw [identsOf?_addIdent] at h
    simp only [idents_addIdent, Array.getElem?_push]
    split at h
    · -- the scope gains the new identifier, numbered by the old count
      subst s
      obtain ⟨l₀, h₀, rfl⟩ := Option.map_eq_some_iff.1 h
      rw [List.mem_append, hwf.mem_identsOf scope l₀ h₀ i, List.mem_singleton]
      by_cases hi : i = t.idents.size
      · simp [hi]
      · simp [hi]
    · rw [hwf.mem_identsOf s l h i]
      by_cases hi : i = t.idents.size
      · subst hi
        simp only [Array.getElem?_eq_none (Nat.le_refl _), if_true, Option.some.injEq]
        constructor
        · rintro ⟨x, hx, -⟩
          cases hx
        · rintro ⟨x, rfl, rfl⟩
          contradiction
      · simp [hi]
  sorted s l h := by
    rw [identsOf?_addIdent] at h
    split at h
    · subst s
      obtain ⟨l₀, h₀, rfl⟩ := Option.map_eq_some_iff.1 h
      -- every identifier listed so far is numbered below the new one
      refine List.pairwise_append.2 ⟨hwf.sorted scope l₀ h₀, List.pairwise_singleton _ _, ?_⟩
      intro i hi j hj
      rw [List.mem_singleton] at hj
      subst hj
      obtain ⟨x, hx, -⟩ := (hwf.mem_identsOf scope l₀ h₀ i).1 hi
      exact (Array.getElem?_eq_some_iff.1 hx).1
    · exact hwf.sorted s l h

theorem WellFormed.bindAll (hwf : t.WellFormed) : t.bindAll.WellFormed where
  parent_lt := hwf.parent_lt
  scope_lt i x h := by
    rw [getElem?_idents_bindAll] at h
    obtain ⟨x₀, hx₀, rfl⟩ := Option.map_eq_some_iff.1 h
    exact hwf.scope_lt i x₀ hx₀
  mem_identsOf s l h i := by
    rw [hwf.mem_identsOf s l h i, getElem?_idents_bindAll]
    constructor
    · rintro ⟨x, hx, rfl⟩
      exact ⟨{ x with binding := t.bindingOf i x }, by rw [hx]; rfl, rfl⟩
    · rintro ⟨x, hx, rfl⟩
      obtain ⟨x₀, hx₀, rfl⟩ := Option.map_eq_some_iff.1 hx
      exact ⟨x₀, hx₀, rfl⟩
  sorted := hwf.sorted

theorem Reachable.wellFormed (h : t.Reachable) : t.WellFormed := by
  induction h with
  | empty => exact wellFormed_empty
  | pushScope _ _ _ hp ih => exact ih.pushScope hp
  | addIdent _ _ _ _ _ _ hs ih => exact ih.addIdent hs
  | bindAll _ ih => exact ih.bindAll

/-- Opening a scope leaves the walk outward from every existing scope as it was. -/
theorem WellFormed.outward_pushScope {parent : Nat} {kind : ScopeKind} (hwf : t.WellFormed)
    {s : Nat} (hs : s < t.scopes.size) (k : Nat) :
    (t.pushScope parent kind).1.outward s k = t.outward s k := by
  induction k generalizing s with
  | zero => rfl
  | succ k ih =>
    have hpar : (t.pushScope parent kind).1.parent? s = t.parent? s := by
      rw [parent?_pushScope, if_neg (Nat.ne_of_lt hs)]
    cases hp : t.parent? s with
    | none =>
      rw [outward_succ_of_parent?_eq_none (hpar.trans hp), outward_succ_of_parent?_eq_none hp]
    | some p =>
      rw [outward_succ_of_parent? (hpar.trans hp), outward_succ_of_parent? hp,
        ih (Nat.lt_trans (hwf.parent_lt s p hp) hs)]

/-! ### The lexical rule -/

/-- Declaration `d` is one that identifier `i`, a reference to `name` from scope `s`, may see
`k` scopes out from `s`: a declaration of `name` made in that scope, before `i` unless the
scope is a module scope. -/
def Sees (t : ScopeTree) (s : Nat) (name : String) (i d k : Nat) : Prop :=
  ∃ y, t.idents[d]? = some y ∧ y.kind = .decl ∧ y.name = name ∧ t.outward s k = some y.scope ∧
    (t.kind? y.scope = some .module ∨ d < i)

/-- The lexical rule: of the declarations the reference may see, `d` is in the scope nearest to
`s`, and the latest made there. -/
def Selects (t : ScopeTree) (s : Nat) (name : String) (i d : Nat) : Prop :=
  ∃ k, t.Sees s name i d k ∧ (∀ d' k', t.Sees s name i d' k' → k ≤ k') ∧
    ∀ d', t.Sees s name i d' k → d' ≤ d

section Rule

variable {s : Nat} {name : String} {i d : Nat}

theorem Selects.sees (h : t.Selects s name i d) : ∃ k, t.Sees s name i d k :=
  let ⟨k, hk, _⟩ := h
  ⟨k, hk⟩

/-- The lexical rule selects at most one declaration. -/
theorem Selects.unique {d' : Nat} (h : t.Selects s name i d) (h' : t.Selects s name i d') :
    d = d' := by
  obtain ⟨k, hk, hmin, hmax⟩ := h
  obtain ⟨k', hk', hmin', hmax'⟩ := h'
  have hkk : k = k' := Nat.le_antisymm (hmin d' k' hk') (hmin' d k hk)
  subst hkk
  exact Nat.le_antisymm (hmax' d hk) (hmax d' hk')

theorem sees_succ_iff {p k : Nat} (h : t.parent? s = some p) :
    t.Sees s name i d (k + 1) ↔ t.Sees p name i d k := by
  simp only [Sees, outward_succ_of_parent? h]

theorem not_sees_succ {k : Nat} (h : t.parent? s = none) : ¬ t.Sees s name i d (k + 1) := by
  rintro ⟨y, -, -, -, hout, -⟩
  rw [outward_succ_of_parent?_eq_none h] at hout
  cases hout

/-- When the nearest scope has nothing to see, the rule looks one scope out. -/
theorem selects_succ_iff {p : Nat} (h : t.parent? s = some p)
    (h₀ : ∀ d, ¬ t.Sees s name i d 0) : t.Selects s name i d ↔ t.Selects p name i d := by
  constructor
  · rintro ⟨k, hk, hmin, hmax⟩
    cases k with
    | zero => exact absurd hk (h₀ d)
    | succ k =>
      refine ⟨k, (sees_succ_iff h).1 hk, fun d' k' hk' => ?_, fun d' hk' => hmax d' ((sees_succ_iff h).2 hk')⟩
      exact Nat.le_of_succ_le_succ (hmin d' (k' + 1) ((sees_succ_iff h).2 hk'))
  · rintro ⟨k, hk, hmin, hmax⟩
    refine ⟨k + 1, (sees_succ_iff h).2 hk, fun d' k' hk' => ?_, fun d' hk' => hmax d' ((sees_succ_iff h).1 hk')⟩
    cases k' with
    | zero => exact absurd hk' (h₀ d')
    | succ k' => exact Nat.succ_le_succ (hmin d' k' ((sees_succ_iff h).1 hk'))

end Rule

/-! ### The walk outward -/

/-- In a list of increasing numbers, the first from the back that passes a test is the largest
that passes it. -/
theorem find?_reverse_eq_some_iff {l : List Nat} (hl : l.Pairwise (· < ·)) {q : Nat → Bool}
    {d : Nat} : l.reverse.find? q = some d ↔ d ∈ l ∧ q d ∧ ∀ d' ∈ l, q d' → d' ≤ d := by
  have largest : ∀ {d}, l.reverse.find? q = some d → d ∈ l ∧ q d ∧ ∀ d' ∈ l, q d' → d' ≤ d := by
    intro d h
    obtain ⟨hq, as, bs, hsplit, has⟩ := List.find?_eq_some_iff_append.1 h
    have hl' : l = bs.reverse ++ d :: as.reverse := by
      rw [← List.reverse_reverse l, hsplit]
      simp
    refine ⟨by rw [hl']; simp, hq, fun d' hd' hq' => ?_⟩
    rw [hl'] at hd' hl
    -- what stands before `d` is smaller, what stands after it fails the test
    rcases List.mem_append.1 hd' with hbefore | hafter
    · exact Nat.le_of_lt ((List.pairwise_append.1 hl).2.2 d' hbefore d List.mem_cons_self)
    · rcases List.mem_cons.1 hafter with rfl | hafter
      · exact Nat.le_refl _
      · have := has d' (List.mem_reverse.1 hafter)
        simp [hq'] at this
  refine ⟨largest, fun ⟨hd, hq, hmax⟩ => ?_⟩
  obtain ⟨d', hd'⟩ := Option.isSome_iff_exists.1
    (List.find?_isSome.2 ⟨d, List.mem_reverse.2 hd, hq⟩)
  obtain ⟨hmem', hq', hmax'⟩ := largest hd'
  rw [hd', Nat.le_antisymm (hmax d' hmem' hq') (hmax' d hd hq)]

theorem find?_reverse_eq_none_iff {l : List Nat} {q : Nat → Bool} :
    l.reverse.find? q = none ↔ ∀ d ∈ l, q d = false := by
  simp [List.find?_eq_none]

section Walk

variable {name : String} {before : Nat}

/-- The test `visibleIn` puts to each identifier of scope `sc`. -/
def visibleTest (t : ScopeTree) (sc : Scope) (name : String) (before i : Nat) : Bool :=
  match t.idents[i]? with
  | some d => d.kind == .decl && d.name == name && (sc.kind == .module || i < before)
  | none => false

theorem visibleIn_eq (sc : Scope) :
    t.visibleIn sc name before = sc.idents.toList.reverse.find? (t.visibleTest sc name before) := rfl

theorem visibleTest_eq_true_iff {sc : Scope} {i : Nat} :
    t.visibleTest sc name before i = true ↔
      ∃ y, t.idents[i]? = some y ∧ y.kind = .decl ∧ y.name = name ∧
        (sc.kind = .module ∨ i < before) := by
  unfold visibleTest
  cases t.idents[i]? <;> simp [and_assoc]

/-- Within one scope, an identifier passes the test of `visibleIn` exactly when the reference
sees it there. -/
theorem visibleIn_test_iff (hwf : t.WellFormed) {s : Nat} {sc : Scope}
    (hs : t.scopes[s]? = some sc) {d : Nat} :
    (d ∈ sc.idents.toList ∧ t.visibleTest sc name before d = true) ↔ t.Sees s name before d 0 := by
  have hl : t.identsOf? s = some sc.idents.toList := by simp [identsOf?, hs]
  have hk : t.kind? s = some sc.kind := by simp [kind?, hs]
  rw [hwf.mem_identsOf s _ hl d, visibleTest_eq_true_iff]
  constructor
  · rintro ⟨⟨y, hy, rfl⟩, y', hy', hkind, hname, hvis⟩
    obtain rfl : y = y' := Option.some.inj (hy.symm.trans hy')
    exact ⟨y, hy, hkind, hname, rfl, by rw [hk]; simpa using hvis⟩
  · rintro ⟨y, hy, hkind, hname, hout, hvis⟩
    cases hout
    rw [hk] at hvis
    exact ⟨⟨y, hy, rfl⟩, y, hy, hkind, hname, by simpa using hvis⟩

/-- What `visibleIn` finds in a scope is the latest declaration the reference sees there. -/
theorem visibleIn_spec (hwf : t.WellFormed) {s : Nat} {sc : Scope} (hs : t.scopes[s]? = some sc) :
    (∀ d, t.visibleIn sc name before = some d →
      t.Sees s name before d 0 ∧ ∀ d', t.Sees s name before d' 0 → d' ≤ d) ∧
    (t.visibleIn sc name before = none → ∀ d, ¬ t.Sees s name before d 0) := by
  have hsorted : sc.idents.toList.Pairwise (· < ·) := hwf.sorted s _ (by simp [identsOf?, hs])
  rw [visibleIn_eq]
  refine ⟨fun d h => ?_, fun h d hd => ?_⟩
  · obtain ⟨hmem, htest, hmax⟩ := (find?_reverse_eq_some_iff hsorted).1 h
    refine ⟨(visibleIn_test_iff hwf hs).1 ⟨hmem, htest⟩, fun d' hd' => ?_⟩
    obtain ⟨hmem', htest'⟩ := (visibleIn_test_iff hwf hs).2 hd'
    exact hmax d' hmem' htest'
  · obtain ⟨hmem, htest⟩ := (visibleIn_test_iff hwf hs).2 hd
    have hfalse := find?_reverse_eq_none_iff.1 h d hmem
    rw [htest] at hfalse
    cases hfalse

/-- One step of the walk: what the scope itself shows, else the walk from its parent. -/
theorem findDeclFrom_succ {fuel s : Nat} {sc : Scope} (hsc : t.scopes[s]? = some sc) :
    t.findDeclFrom name before (fuel + 1) s =
      (t.visibleIn sc name before).or (sc.parent.bind (t.findDeclFrom name before fuel)) := by
  simp only [findDeclFrom, hsc]
  cases t.visibleIn sc name before <;> cases sc.parent <;> rfl

/-- The walk outward from an existing scope, with more fuel than the scope's number, finds the
declaration the lexical rule selects, and nothing when the reference sees no declaration. -/
theorem findDeclFrom_spec (hwf : t.WellFormed) : ∀ fuel s, s < fuel → s < t.scopes.size →
    (∀ d, t.findDeclFrom name before fuel s = some d → t.Selects s name before d) ∧
    (t.findDeclFrom name before fuel s = none → ∀ d k, ¬ t.Sees s name before d k) := by
  intro fuel
  induction fuel with
  | zero => intro s hs; exact absurd hs (Nat.not_lt_zero s)
  | succ fuel ih =>
    intro s hfuel hs
    obtain ⟨sc, hsc⟩ : ∃ sc, t.scopes[s]? = some sc := ⟨_, Array.getElem?_eq_getElem hs⟩
    have hparent : t.parent? s = sc.parent := by simp [parent?, hsc]
    obtain ⟨hsome, hnone⟩ := @visibleIn_spec t name before hwf s sc hsc
    rw [findDeclFrom_succ hsc]
    cases hvis : t.visibleIn sc name before with
    | some d =>
      -- the nearest scope has a visible declaration: the latest of them is selected
      obtain ⟨hd, hmax⟩ := hsome d hvis
      refine ⟨fun d' h => ?_, fun h => by cases h⟩
      cases h
      exact ⟨0, hd, fun _ k' _ => Nat.zero_le k', hmax⟩
    | none =>
      have h₀ := hnone hvis
      rw [Option.none_or]
      cases hp : sc.parent with
      | none =>
        rw [Option.bind_none]
        refine ⟨fun d h => (by cases h), fun _ d k hk => ?_⟩
        cases k with
        | zero => exact h₀ d hk
        | succ k => exact not_sees_succ (hparent.trans hp) hk
      | some p =>
        -- nothing to see here: the walk goes on from the parent, created before this scope
        have hps : p < s := hwf.parent_lt s p (hparent.trans hp)
        obtain ⟨ihsome, ihnone⟩ := ih p (by omega) (by omega)
        rw [Option.bind_some]
        refine ⟨fun d h => (selects_succ_iff (hparent.trans hp) h₀).2 (ihsome d h),
          fun h d k hk => ?_⟩
        cases k with
        | zero => exact h₀ d hk
        | succ k => exact ihnone h d k ((sees_succ_iff (hparent.trans hp)).1 hk)

theorem findDecl_eq_some_iff (hwf : t.WellFormed) {s d : Nat} (hs : s < t.scopes.size) :
    t.findDecl s name before = some d ↔ t.Selects s name before d := by
  obtain ⟨hsome, hnone⟩ := @findDeclFrom_spec t name before hwf _ s hs hs
  unfold findDecl
  refine ⟨hsome d, fun hsel => ?_⟩
  cases hfind : t.findDeclFrom name before t.scopes.size s with
  | none =>
    obtain ⟨k, hk⟩ := hsel.sees
    exact absurd hk (hnone hfind d k)
  | some d' => exact congrArg some (hsel.unique (hsome d' hfind)).symm

theorem findDecl_eq_none_iff (hwf : t.WellFormed) {s : Nat} (hs : s < t.scopes.size) :
    t.findDecl s name before = none ↔ ∀ d k, ¬ t.Sees s name before d k := by
  obtain ⟨hsome, hnone⟩ := @findDeclFrom_spec t name before hwf _ s hs hs
  unfold findDecl
  refine ⟨hnone, fun h => ?_⟩
  cases hfind : t.findDeclFrom name before t.scopes.size s with
  | none => rfl
  | some d =>
    obtain ⟨k, hk⟩ := (hsome d hfind).sees
    exact absurd hk (h d k)

end Walk

/-! ### Bindings -/

/-- Every binding points to a declaration of the reference's name, in the reference's scope or
one enclosing it. -/
def BindingsEnclose (t : ScopeTree) : Prop :=
  ∀ (i : Nat) (x : Ident) (d : Nat), t.idents[i]? = some x → x.binding = some d →
    ∃ (y : Ident) (k : Nat), t.idents[d]? = some y ∧ y.kind = .decl ∧ y.name = x.name ∧
      t.outward x.scope k = some y.scope

theorem bindingsEnclose_empty : empty.BindingsEnclose := by
  intro i x d h
  simp [empty] at h

theorem BindingsEnclose.pushScope {parent : Nat} {kind : ScopeKind} (hwf : t.WellFormed)
    (hb : t.BindingsEnclose) : (t.pushScope parent kind).1.BindingsEnclose := by
  intro i x d hx hd
  obtain ⟨y, k, hy, hkind, hname, hout⟩ := hb i x d hx hd
  refine ⟨y, k, hy, hkind, hname, ?_⟩
  rw [hwf.outward_pushScope (hwf.scope_lt i x hx)]
  exact hout

theorem BindingsEnclose.addIdent {scope : Nat} {kind : IdentKind} {name : String}
    {segments : Nat} {span : Span} (hb : t.BindingsEnclose) :
    (t.addIdent scope kind name segments span).1.BindingsEnclose := by
  intro i x d hx hd
  simp only [idents_addIdent, Array.getElem?_push] at hx
  split at hx
  · -- the new identifier is not bound
    cases hx
    cases hd
  · obtain ⟨y, k, hy, hkind, hname, hout⟩ := hb i x d hx hd
    have hdlt : d < t.idents.size := (Array.getElem?_eq_some_iff.1 hy).1
    refine ⟨y, k, ?_, hkind, hname, by rw [outward_addIdent]; exact hout⟩
    simp only [idents_addIdent, Array.getElem?_push, Nat.ne_of_lt hdlt, if_false]
    exact hy

/-- The binding `bindAll` gives a free single-segment reference is the declaration the lexical
rule selects, or none when the reference sees no declaration. -/
theorem bindingOf_spec (hwf : t.WellFormed) {i : Nat} {x : Ident} (hx : t.idents[i]? = some x)
    (hkind : x.kind = .ref) (hseg : x.segments = 1) (hfree : x.binding = none) :
    (∀ d, t.bindingOf i x = some d ↔ t.Selects x.scope x.name i d) ∧
      (t.bindingOf i x = none ↔ ∀ d k, ¬ t.Sees x.scope x.name i d k) := by
  have hs := hwf.scope_lt i x hx
  have hfind : t.bindingOf i x = t.findDecl x.scope x.name i := by
    simp [bindingOf, hkind, hseg, hfree]
  rw [hfind]
  exact ⟨fun d => findDecl_eq_some_iff hwf hs, findDecl_eq_none_iff hwf hs⟩

/-- Identifiers other than free single-segment references keep their binding. -/
theorem bindingOf_of_not_free {i : Nat} {x : Ident}
    (h : x.kind = .decl ∨ x.segments ≠ 1 ∨ x.binding ≠ none) : t.bindingOf i x = x.binding := by
  unfold bindingOf
  rw [if_neg]
  intro hfree
  simp only [Bool.and_eq_true, beq_iff_eq, Option.isNone_iff_eq_none] at hfree
  obtain ⟨⟨hkind, hseg⟩, hnone⟩ := hfree
  rcases h with h | h | h
  · rw [hkind] at h
    cases h
  · exact h hseg
  · exact h hnone

/-- An identifier is a free single-segment reference, or one whose binding `bindAll` keeps. -/
theorem free_or_kept (x : Ident) :
    (x.kind = .ref ∧ x.segments = 1 ∧ x.binding = none) ∨
      (x.kind = .decl ∨ x.segments ≠ 1 ∨ x.binding ≠ none) := by
  cases hk : x.kind
  · exact .inr (.inl rfl)
  · by_cases hs : x.segments = 1
    · by_cases hb : x.binding = none
      · exact .inl ⟨rfl, hs, hb⟩
      · exact .inr (.inr (.inr hb))
    · exact .inr (.inr (.inl hs))

theorem BindingsEnclose.bindAll (hwf : t.WellFormed) (hb : t.BindingsEnclose) :
    t.bindAll.BindingsEnclose := by
  intro i x d hx hd
  rw [getElem?_idents_bindAll] at hx
  obtain ⟨x₀, hx₀, rfl⟩ := Option.map_eq_some_iff.1 hx
  -- the binding points to a declaration of the tree before, found now or kept from before
  have hdecl : ∃ (y : Ident) (k : Nat), t.idents[d]? = some y ∧ y.kind = .decl ∧
      y.name = x₀.name ∧ t.outward x₀.scope k = some y.scope := by
    rcases free_or_kept x₀ with ⟨hkind, hseg, hnone⟩ | hkeep
    · obtain ⟨k, ⟨y, hy, hykind, hyname, hout, -⟩, -⟩ :=
        ((bindingOf_spec hwf hx₀ hkind hseg hnone).1 d).1 hd
      exact ⟨y, k, hy, hykind, hyname, hout⟩
    · exact hb i x₀ d hx₀ (bindingOf_of_not_free hkeep ▸ hd)
  -- `bindAll` keeps that declaration but for its binding
  obtain ⟨y, k, hy, hykind, hyname, hout⟩ := hdecl
  refine ⟨{ y with binding := t.bindingOf d y }, k, by rw [getElem?_idents_bindAll, hy]; rfl,
    hykind, hyname, ?_⟩
  rw [outward_bindAll]
  exact hout

theorem Reachable.bindingsEnclose (h : t.Reachable) : t.BindingsEnclose := by
  induction h with
  | empty => exact bindingsEnclose_empty
  | pushScope _ _ ht _ ih => exact ih.pushScope ht.wellFormed
  | addIdent _ _ _ _ _ _ _ ih => exact ih.addIdent
  | bindAll ht ih => exact ih.bindAll ht.wellFormed

/-- On every tree that building scopes can produce, `bindAll` keeps the scopes and the number of
identifiers; it leaves declarations, references of several segments and references already
bound as they are; and it binds every other reference to the declaration the lexical rule
selects, leaving it unbound exactly when it sees no declaration. In every such tree, each
binding points to a declaration of the reference's name in an enclosing scope. -/
theorem bindAll_binds_by_lexical_rule (ht : t.Reachable) :
    t.bindAll.scopes = t.scopes ∧ t.bindAll.idents.size = t.idents.size ∧
    (∀ (i : Nat) (x : Ident), t.idents[i]? = some x →
      (x.kind = .decl ∨ x.segments ≠ 1 ∨ x.binding ≠ none) → t.bindAll.idents[i]? = some x) ∧
    (∀ (i : Nat) (x : Ident), t.idents[i]? = some x → x.kind = .ref → x.segments = 1 → x.binding = none →
      ∃ b, t.bindAll.idents[i]? = some { x with binding := b } ∧
        (∀ d, b = some d ↔ t.Selects x.scope x.name i d) ∧
        (b = none ↔ ∀ d k, ¬ t.Sees x.scope x.name i d k)) ∧
    t.BindingsEnclose := by
  have hwf := ht.wellFormed
  refine ⟨rfl, size_idents_bindAll, fun i x hx hkeep => ?_, fun i x hx hkind hseg hfree => ?_,
    ht.bindingsEnclose⟩
  · rw [getElem?_idents_bindAll, hx, Option.map_some, bindingOf_of_not_free hkeep]
  · refine ⟨t.bindingOf i x, by rw [getElem?_idents_bindAll, hx, Option.map_some], ?_⟩
    exact bindingOf_spec hwf hx hkind hseg hfree

/-- The tree of a module with a global `x` and a function whose body refers to `x`, declares
its own `x`, and refers to `x` and `sin` in a nested block. -/
def shadowing : ScopeTree :=
  let t₁ := (empty.addIdent root .decl "x" 1 ⟨0, 1⟩).1
  let t₂ := (t₁.pushScope root .body).1
  let t₃ := (t₂.addIdent 1 .ref "x" 1 ⟨2, 3⟩).1
  let t₄ := (t₃.addIdent 1 .decl "x" 1 ⟨4, 5⟩).1
  let t₅ := (t₄.pushScope 1 .block).1
  let t₆ := (t₅.addIdent 2 .ref "x" 1 ⟨6, 7⟩).1
  (t₆.addIdent 2 .ref "sin" 1 ⟨8, 11⟩).1

theorem shadowing_reachable : shadowing.Reachable :=
  .addIdent _ _ _ _ _ (.addIdent _ _ _ _ _ (.pushScope _ _ (.addIdent _ _ _ _ _
    (.addIdent _ _ _ _ _ (.pushScope _ _ (.addIdent _ _ _ _ _ .empty (by decide)) (by decide))
      (by decide)) (by decide)) (by decide)) (by decide)) (by decide)

/-- The reference before the local `x` is bound to the global one, the reference in the block to
the local one, and `sin` stays unbound, as the lexical rule says. -/
theorem shadowing_binds :
    shadowing.bindAll.idents.toList.map (·.binding) = [none, some 0, none, some 2, none] ∧
      shadowing.bindAll.scopes = shadowing.scopes ∧
      shadowing.bindAll.idents.size = shadowing.idents.size ∧ shadowing.BindingsEnclose :=
  have h := bindAll_binds_by_lexical_rule shadowing_reachable
  ⟨by decide, h.1, h.2.1, h.2.2.2.2⟩

end ScopeTree

end ShaderLink
