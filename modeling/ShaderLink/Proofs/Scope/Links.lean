import ShaderLink.Proofs.Scope.Binding

/-!
# Parent links, child lists and the walk outward

A scope tree stores each scope's parent and the list of its children apart, and nothing in the
data ties the two together. Every tree that building scopes produces (`ScopeTree.Reachable`)
keeps them in step (`ScopeTree.Linked`): the root exists and has no parent, every other scope
has one, and a scope lists as children exactly the scopes whose parent it is, in the order they
were opened. Together with `WellFormed` this counts every occurrence: a scope stands once in its
parent's child list and in no other (`Linked.count_childrenOf`), and an identifier once in its
own scope's list and in no other (`WellFormed.count_identsOf`).

Parents are numbered below their children, so the walk outward from a scope visits strictly
decreasing numbers and reaches the root within as many steps as the scope's number, after which
it ends (`Linked.outward_reaches_root`). `findDeclFrom` looks at exactly the scopes of that
walk, in order (`findDeclFrom_eq_findSome?`); so any fuel above the starting scope's number
gives the same answer, and the fuel `findDecl` passes is never what stops it. The main statement
is `reachable_scope_links`.
-/

namespace ShaderLink

namespace ScopeTree

/-- The children listed by scope `p`. -/
def childrenOf? (t : ScopeTree) (p : Nat) : Option (List Nat) :=
  (t.scopes[p]?).map (·.children.toList)

variable {t : ScopeTree}

section Steps

variable (parent scope : Nat) (kind : ScopeKind) (ikind : IdentKind) (name : String)
  (segments : Nat) (span : Span) (s : Nat)

/-- Opening a scope gives it an empty child list and appends it to its parent's. -/
theorem childrenOf?_pushScope (hp : parent < t.scopes.size) :
    (t.pushScope parent kind).1.childrenOf? s =
      if s = t.scopes.size then some []
      else if s = parent then (t.childrenOf? s).map (· ++ [t.scopes.size])
      else t.childrenOf? s := by
  unfold childrenOf? pushScope
  simp only [Array.getElem?_modify, Array.getElem?_push]
  by_cases hs : s = t.scopes.size
  · subst hs
    simp [Nat.ne_of_lt hp]
  · by_cases hps : s = parent
    · subst hps
      simp [hs, Option.map_map, Function.comp_def]
    · simp [hs, hps, Ne.symm hps]

@[simp] theorem childrenOf?_addIdent :
    (t.addIdent scope ikind name segments span).1.childrenOf? s = t.childrenOf? s := by
  unfold childrenOf? addIdent
  simp only [Array.getElem?_modify]
  by_cases hp : scope = s <;> simp [hp, Option.map_map, Function.comp_def]

@[simp] theorem childrenOf?_bindAll : t.bindAll.childrenOf? s = t.childrenOf? s := rfl

end Steps

/-- Only a scope of the tree has a parent. -/
theorem lt_size_of_parent? {s p : Nat} (h : t.parent? s = some p) : s < t.scopes.size := by
  unfold parent? at h
  cases hs : t.scopes[s]? with
  | none => rw [hs] at h; cases h
  | some _ => exact (Array.getElem?_eq_some_iff.1 hs).1

/-! ### Linked trees -/

/-- Parent links and child lists in step. -/
structure Linked (t : ScopeTree) : Prop where
  /-- The root is a scope of the tree, … -/
  root_lt : root < t.scopes.size
  /-- … it has no parent, … -/
  parent_root : t.parent? root = none
  /-- … every other scope has one, … -/
  parent_isSome : ∀ s, s < t.scopes.size → s ≠ root → (t.parent? s).isSome
  /-- … a scope lists as children exactly the scopes whose parent it is, … -/
  mem_childrenOf : ∀ p cs, t.childrenOf? p = some cs → ∀ s, s ∈ cs ↔ t.parent? s = some p
  /-- … in the order they were opened. -/
  sorted_childrenOf : ∀ p cs, t.childrenOf? p = some cs → cs.Pairwise (· < ·)

/-- In the tree with only the module scope, no scope has a parent… -/
theorem parent?_empty (s : Nat) : empty.parent? s = none := by
  cases s <;> simp [parent?, empty]

/-- … and the module scope lists no children. -/
theorem eq_nil_of_childrenOf?_empty {p : Nat} {cs : List Nat} (h : empty.childrenOf? p = some cs) :
    cs = [] := by
  cases p with
  | zero => simpa [childrenOf?, empty] using h.symm
  | succ p => simp [childrenOf?, empty] at h

theorem linked_empty : empty.Linked where
  root_lt := by decide
  parent_root := parent?_empty root
  parent_isSome s hs hroot := by
    have hs0 : s = 0 := by simpa [empty] using hs
    exact absurd hs0 hroot
  mem_childrenOf p cs h s := by simp [eq_nil_of_childrenOf?_empty h, parent?_empty]
  sorted_childrenOf p cs h := by simp [eq_nil_of_childrenOf?_empty h]

section Preservation

variable {parent : Nat} {kind : ScopeKind}

/-- A scope whose parent is `p` is numbered below the new scope. -/
theorem ne_size_of_parent? {s p : Nat} (h : t.parent? s = some p) : s ≠ t.scopes.size :=
  Nat.ne_of_lt (lt_size_of_parent? h)

theorem Linked.pushScope (hl : t.Linked) (hwf : t.WellFormed) (hp : parent < t.scopes.size) :
    (t.pushScope parent kind).1.Linked where
  root_lt := by
    simp only [size_scopes_pushScope]
    exact Nat.lt_succ_of_lt hl.root_lt
  parent_root := by
    rw [parent?_pushScope, if_neg (Nat.ne_of_lt hl.root_lt)]
    exact hl.parent_root
  parent_isSome s hs hroot := by
    rw [parent?_pushScope]
    split
    · rfl
    · simp only [size_scopes_pushScope] at hs
      exact hl.parent_isSome s (by omega) hroot
  mem_childrenOf p cs h s := by
    rw [childrenOf?_pushScope parent kind p hp] at h
    rw [parent?_pushScope]
    split at h
    · -- the new scope has no children, and no scope names it as parent
      next hnew =>
      cases h
      simp only [List.not_mem_nil, false_iff]
      split
      · intro heq
        have := Option.some.inj heq
        omega
      · intro hsp
        have := hwf.parent_lt s p hsp
        have := lt_size_of_parent? hsp
        omega
    · split at h
      · -- the parent gains the new scope at the end of its list
        next hnew hpar =>
        subst hpar
        obtain ⟨cs₀, h₀, rfl⟩ := Option.map_eq_some_iff.1 h
        rw [List.mem_append, hl.mem_childrenOf p cs₀ h₀ s, List.mem_singleton]
        by_cases hs : s = t.scopes.size <;> simp [hs]
      · next hnew hpar =>
        rw [hl.mem_childrenOf p cs h s]
        split
        · -- the new scope had no parent before, and its parent now is another scope
          next hs =>
          subst hs
          exact ⟨fun hsp => absurd rfl (ne_size_of_parent? hsp),
            fun heq => absurd (Option.some.inj heq).symm hpar⟩
        · rfl
  sorted_childrenOf p cs h := by
    rw [childrenOf?_pushScope parent kind p hp] at h
    split at h
    · cases h
      exact List.Pairwise.nil
    · split at h
      · next hnew hpar =>
        subst hpar
        obtain ⟨cs₀, h₀, rfl⟩ := Option.map_eq_some_iff.1 h
        -- every child listed so far is numbered below the new scope
        refine List.pairwise_append.2 ⟨hl.sorted_childrenOf p cs₀ h₀, List.pairwise_singleton _ _,
          fun c hc d hd => ?_⟩
        rw [List.mem_singleton] at hd
        subst hd
        exact lt_size_of_parent? ((hl.mem_childrenOf p cs₀ h₀ c).1 hc)
      · exact hl.sorted_childrenOf p cs h

theorem Linked.addIdent {scope : Nat} {ikind : IdentKind} {name : String} {segments : Nat}
    {span : Span} (hl : t.Linked) : (t.addIdent scope ikind name segments span).1.Linked where
  root_lt := by simpa using hl.root_lt
  parent_root := by simpa using hl.parent_root
  parent_isSome s hs hroot := by simpa using hl.parent_isSome s (by simpa using hs) hroot
  mem_childrenOf p cs h s := by
    simpa using hl.mem_childrenOf p cs (by simpa using h) s
  sorted_childrenOf p cs h := hl.sorted_childrenOf p cs (by simpa using h)

theorem Linked.bindAll (hl : t.Linked) : t.bindAll.Linked where
  root_lt := hl.root_lt
  parent_root := hl.parent_root
  parent_isSome := hl.parent_isSome
  mem_childrenOf := hl.mem_childrenOf
  sorted_childrenOf := hl.sorted_childrenOf

theorem Reachable.linked (h : t.Reachable) : t.Linked := by
  induction h with
  | empty => exact linked_empty
  | pushScope _ _ ht hp ih => exact ih.pushScope ht.wellFormed hp
  | addIdent _ _ _ _ _ _ _ ih => exact ih.addIdent
  | bindAll _ ih => exact ih.bindAll

end Preservation

/-! ### Counting occurrences -/

/-- A scope stands once in the child list of its parent and in no other. -/
theorem Linked.count_childrenOf (hl : t.Linked) {p : Nat} {cs : List Nat}
    (h : t.childrenOf? p = some cs) (s : Nat) :
    cs.count s = if t.parent? s = some p then 1 else 0 := by
  have hnodup : cs.Nodup := (hl.sorted_childrenOf p cs h).imp Nat.ne_of_lt
  rw [List.Nodup.count hnodup]
  simp only [hl.mem_childrenOf p cs h s]

/-- An identifier stands once in the list of its own scope and in no other. -/
theorem WellFormed.count_identsOf (hwf : t.WellFormed) {s : Nat} {l : List Nat}
    (h : t.identsOf? s = some l) {i : Nat} {x : Ident} (hx : t.idents[i]? = some x) :
    l.count i = if x.scope = s then 1 else 0 := by
  have hnodup : l.Nodup := (hwf.sorted s l h).imp Nat.ne_of_lt
  -- the identifier numbered `i` is `x`, so it belongs to `s` exactly when `x` does
  have hmem : i ∈ l ↔ x.scope = s := by
    rw [hwf.mem_identsOf s l h i]
    constructor
    · rintro ⟨y, hy, rfl⟩
      rw [hx] at hy
      cases hy
      rfl
    · intro hs
      exact ⟨x, hx, hs⟩
  rw [List.Nodup.count hnodup]
  simp only [hmem]

/-! ### The walk outward -/

/-- The walk takes one more step from where it stands. -/
theorem outward_succ (s k : Nat) : t.outward s (k + 1) = (t.outward s k).bind t.parent? := by
  induction k generalizing s with
  | zero => simp [outward]
  | succ k ih =>
    cases hp : t.parent? s with
    | none => simp [outward_succ_of_parent?_eq_none hp]
    | some p => rw [outward_succ_of_parent? hp, outward_succ_of_parent? hp, ih p]

/-- Each step of the walk goes to a smaller number. -/
theorem WellFormed.outward_succ_lt (hwf : t.WellFormed) {s k q q' : Nat}
    (hq : t.outward s k = some q) (hq' : t.outward s (k + 1) = some q') : q' < q := by
  rw [outward_succ, hq, Option.bind_some] at hq'
  exact hwf.parent_lt q q' hq'

/-- After `k` steps the walk stands at least `k` below where it started. -/
theorem WellFormed.outward_add_le (hwf : t.WellFormed) {s : Nat} :
    ∀ {k q : Nat}, t.outward s k = some q → q + k ≤ s
  | 0, q, h => by
    cases h
    exact Nat.le_refl _
  | k + 1, q', h => by
    obtain ⟨q, hq, -⟩ := Option.bind_eq_some_iff.1 ((outward_succ s k).symm.trans h)
    have hlt := hwf.outward_succ_lt hq h
    have hle := hwf.outward_add_le hq
    omega

/-- The walk from a scope of the tree reaches the root within as many steps as the scope's
number, and ends there. -/
theorem Linked.outward_reaches_root (hl : t.Linked) (hwf : t.WellFormed) :
    ∀ s, s < t.scopes.size → ∃ k ≤ s, t.outward s k = some root ∧ t.outward s (k + 1) = none
  | s, hs => by
    by_cases hroot : s = root
    · subst hroot
      exact ⟨0, Nat.le_refl _, rfl, by rw [outward_succ_of_parent?_eq_none hl.parent_root]⟩
    · -- a scope other than the root goes on to its parent, numbered below it
      obtain ⟨p, hp⟩ := Option.isSome_iff_exists.1 (hl.parent_isSome s hs hroot)
      have hps : p < s := hwf.parent_lt s p hp
      obtain ⟨k, hk, hroot', hend⟩ := hl.outward_reaches_root hwf p (by omega)
      refine ⟨k + 1, by omega, ?_, ?_⟩
      · rw [outward_succ_of_parent? hp]
        exact hroot'
      · rw [outward_succ_of_parent? hp]
        exact hend

/-- What the search for `name` finds at the scope `k` steps out from `s`. -/
def foundAt (t : ScopeTree) (name : String) (before s k : Nat) : Option Nat :=
  (t.outward s k).bind fun q => (t.scopes[q]?).bind fun sc => t.visibleIn sc name before

theorem foundAt_succ_of_parent? {name : String} {before s p : Nat} (h : t.parent? s = some p)
    (k : Nat) : t.foundAt name before s (k + 1) = t.foundAt name before p k := by
  simp only [foundAt, outward_succ_of_parent? h]

theorem foundAt_succ_of_parent?_eq_none {name : String} {before s : Nat} (h : t.parent? s = none)
    (k : Nat) : t.foundAt name before s (k + 1) = none := by
  simp only [foundAt, outward_succ_of_parent?_eq_none h, Option.bind_none]

/-- `findDeclFrom` looks at the scopes of the walk outward in order, as many as its fuel, and
returns the first declaration one of them shows. -/
theorem findDeclFrom_eq_findSome? (name : String) (before : Nat) :
    ∀ fuel s, t.findDeclFrom name before fuel s =
      (List.range fuel).findSome? (t.foundAt name before s)
  | 0, s => rfl
  | fuel + 1, s => by
    rw [List.range_succ_eq_map, List.findSome?_cons, List.findSome?_map]
    cases hsc : t.scopes[s]? with
    | none =>
      -- no scope numbered `s`: nothing to find here, and the walk stops
      have hpar : t.parent? s = none := by simp [parent?, hsc]
      have hrest : (List.range fuel).findSome? (t.foundAt name before s ∘ Nat.succ) = none :=
        List.findSome?_eq_none_iff.2 fun k _ => foundAt_succ_of_parent?_eq_none hpar k
      simp [findDeclFrom, foundAt, hsc, hrest]
    | some sc =>
      have hpar : t.parent? s = sc.parent := by simp [parent?, hsc]
      have h₀ : t.foundAt name before s 0 = t.visibleIn sc name before := by simp [foundAt, hsc]
      rw [findDeclFrom_succ hsc, h₀]
      cases t.visibleIn sc name before with
      | some d => rfl
      | none =>
        rw [Option.none_or]
        cases hp : sc.parent with
        | none =>
          exact (List.findSome?_eq_none_iff.2 fun k _ =>
            foundAt_succ_of_parent?_eq_none (hpar.trans hp) k).symm
        | some p =>
          rw [Option.bind_some, findDeclFrom_eq_findSome? name before fuel p]
          exact congrArg (List.findSome? · (List.range fuel))
            (funext fun k => (foundAt_succ_of_parent? (hpar.trans hp) k).symm)

/-- Past the end of the walk nothing is found. -/
theorem WellFormed.foundAt_eq_none (hwf : t.WellFormed) {name : String} {before s k : Nat}
    (hk : s < k) : t.foundAt name before s k = none := by
  cases hq : t.outward s k with
  | none => simp [foundAt, hq]
  | some q =>
    have := hwf.outward_add_le hq
    omega

/-- Any fuel above the starting scope's number searches the whole walk. -/
theorem WellFormed.findDeclFrom_eq_of_lt (hwf : t.WellFormed) {name : String} {before s fuel : Nat}
    (hfuel : s < fuel) :
    t.findDeclFrom name before fuel s = (List.range (s + 1)).findSome? (t.foundAt name before s) := by
  obtain ⟨extra, rfl⟩ : ∃ extra, fuel = s + 1 + extra := ⟨fuel - (s + 1), by omega⟩
  rw [findDeclFrom_eq_findSome?, List.range_add, List.findSome?_append]
  -- the steps beyond `s` lie past the end of the walk
  have hrest : (List.map (fun x => s + 1 + x) (List.range extra)).findSome?
      (t.foundAt name before s) = none :=
    List.findSome?_eq_none_iff.2 fun k hk => by
      obtain ⟨j, -, rfl⟩ := List.mem_map.1 hk
      exact hwf.foundAt_eq_none (by omega)
  rw [hrest, Option.or_none]

/-- In every tree that building scopes produces, the root has no parent and every other scope
has a parent numbered below it; a scope stands in the child list of its parent once and in no
other; every identifier stands once in the list of its own scope. So the walk outward from a
scope visits strictly decreasing numbers and ends at the root within as many steps as the
scope's number, and `findDeclFrom`, with any fuel above that number as `findDecl` passes,
searches exactly that walk, in order. -/
theorem reachable_scope_links (ht : t.Reachable) :
    t.parent? root = none ∧
    (∀ s, s < t.scopes.size → s ≠ root → ∃ p, t.parent? s = some p ∧ p < s) ∧
    (∀ p cs, t.childrenOf? p = some cs → ∀ s, cs.count s = if t.parent? s = some p then 1 else 0) ∧
    (∀ i x, t.idents[i]? = some x → ∃ l, t.identsOf? x.scope = some l ∧ l.count i = 1) ∧
    ∀ s, s < t.scopes.size →
      (∀ k q q', t.outward s k = some q → t.outward s (k + 1) = some q' → q' < q) ∧
      (∃ k ≤ s, t.outward s k = some root ∧ t.outward s (k + 1) = none) ∧
      ∀ name before fuel, s < fuel →
        t.findDeclFrom name before fuel s = (List.range (s + 1)).findSome? (t.foundAt name before s) := by
  have hwf := ht.wellFormed
  have hl := ht.linked
  refine ⟨hl.parent_root, fun s hs hroot => ?_, fun p cs h => hl.count_childrenOf h,
    fun i x hx => ?_, fun s hs => ⟨fun k q q' => hwf.outward_succ_lt, hl.outward_reaches_root hwf s hs,
      fun name before fuel hfuel => hwf.findDeclFrom_eq_of_lt hfuel⟩⟩
  · obtain ⟨p, hp⟩ := Option.isSome_iff_exists.1 (hl.parent_isSome s hs hroot)
    exact ⟨p, hp, hwf.parent_lt s p hp⟩
  · -- the identifier's scope is a scope of the tree, so it has a list, which holds it once
    obtain ⟨l, hl'⟩ := Option.isSome_iff_exists.1
      (identsOf?_isSome_iff.2 (hwf.scope_lt i x hx))
    exact ⟨l, hl', by rw [hwf.count_identsOf hl' hx, if_pos rfl]⟩

/-- In the module with a global, a function and a block inside it, the walk from the block
passes the function's scope and reaches the root in two steps. -/
theorem shadowing_block_reaches_root :
    ∃ k ≤ 2, shadowing.outward 2 k = some root ∧ shadowing.outward 2 (k + 1) = none :=
  ((reachable_scope_links shadowing_reachable).2.2.2.2 2 (by decide)).2.1

end ScopeTree

end ShaderLink
