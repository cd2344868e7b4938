import ShaderLink.Proofs.Link.Visits

/-!
# Output names

The root's declarations keep their names in a linked shader; every other instance takes a
name that nothing else has. The linker reserves, before anything is linked, the names of the
root's declarations and every local name of every module of the registry (so that a renamed
reference is never captured by a local of that name), and every new instance takes the first
variant `base`, `base0`, `base1`, … of its declaration's or generator's name that is not
reserved yet, and reserves it.

`NameInv` is what the linker's state keeps about names: the root's declarations come first
under their own names, every instance's name is reserved, keys are distinct, and every later
instance's name was free when it was taken. The seeded state has it (`nameInv_seeded`), and
each kind of step keeps it (`NameInv.step`); so every state of a walk has it, which gives the
names their guarantees (`walk_output_names`).
-/

namespace ShaderLink

namespace ParsedModule

/-- The declarations of a module come in order of their element indices. -/
theorem decls_indices_lt (m : ParsedModule) : m.decls.Pairwise fun a b => a.1 < b.1 := by
  unfold decls
  refine List.Pairwise.filterMap (R := fun a b => a.2 < b.2) _ ?_ ?_
  · intro a a' hlt b hb b' hb'
    obtain ⟨d, -, rfl⟩ := Option.map_eq_some_iff.1 hb
    obtain ⟨d', -, rfl⟩ := Option.map_eq_some_iff.1 hb'
    exact hlt
  · have hrange := List.pairwise_lt_range' (s := 0) (n := m.elems.toList.length)
    rw [← List.zipIdx_map_snd, List.pairwise_map] at hrange
    exact hrange

end ParsedModule

/-- A name is its base or the base followed by the decimal digits of a number. -/
def IsVariantOf (base name : String) : Prop := name = base ∨ ∃ n : Nat, name = base ++ toString n

namespace Linker

/-- The keys of the root's declarations, taken as written. -/
def rootKeys (ctx : LinkContext) : List InstanceKey :=
  ctx.rootModule.decls.map fun d => ⟨.decl ctx.root d.1, []⟩

/-- What the linker keeps about names. -/
structure NameInv (ctx : LinkContext) (l : Linker) : Prop where
  /-- The root's declarations come first, in order, under their own names. -/
  seeded : ∀ j (hj : j < ctx.rootModule.decls.length),
    keyName l j = some (⟨.decl ctx.root ctx.rootModule.decls[j].1, []⟩, ctx.rootModule.decls[j].2.name)
  reserved : ∀ x ∈ ctx.reservedNames, x ∈ l.usedNames
  used : NamesUsed l
  nodup : (keys l).Nodup
  /-- Every later instance took a variant of its base name that was free then. -/
  later : ∀ j key name, ctx.rootModule.decls.length ≤ j → keyName l j = some (key, name) →
    name ∉ ctx.reservedNames ∧ (∀ k other, k ≠ j → keyName l k = some other → other.2 ≠ name) ∧
      IsVariantOf (baseName ctx.registry key.target) name

variable {ctx : LinkContext} {l l' : Linker}

theorem mem_usedNames_of_keyName {j : Nat} {x : InstanceKey × String} (hu : NamesUsed l)
    (h : keyName l j = some x) : x.2 ∈ l.usedNames := by
  obtain ⟨inst, hinst, rfl⟩ := Option.map_eq_some_iff.1 h
  exact hu inst (Array.mem_of_getElem? hinst)

/-- The invariant speaks of keys, names and reserved names only. -/
theorem NameInv.of_keyName (h : NameInv ctx l) (hk : ∀ j, keyName l' j = keyName l j)
    (hu : l'.usedNames = l.usedNames) :
    NameInv ctx l' where
  seeded j hj := (hk j).trans (h.seeded j hj)
  reserved x hx := hu ▸ h.reserved x hx
  used inst hinst := by
    obtain ⟨j, hj, rfl⟩ := Array.mem_iff_getElem.1 hinst
    have hl : keyName l j = some (l'.instances[j].key, l'.instances[j].name) := by
      rw [← hk j, keyName, Array.getElem?_eq_getElem hj]
      rfl
    exact hu ▸ mem_usedNames_of_keyName h.used hl
  nodup := by
    have hkeys : keys l' = keys l := by
      apply List.ext_getElem?
      intro j
      have hj := congrArg (Option.map Prod.fst) (hk j)
      simpa [keys, keyName, Option.map_map, Function.comp_def] using hj
    exact hkeys ▸ h.nodup
  later j key name hj hkn := by
    rw [hk j] at hkn
    obtain ⟨hres, hdist, hvar⟩ := h.later j key name hj hkn
    exact ⟨hres, fun k other hkj ho => hdist k other hkj (by rwa [← hk k]), hvar⟩

theorem NameInv.create (h : NameInv ctx l) {key : InstanceKey} (hnew : key ∉ keys l)
    (hinst : l'.instances =
      l.instances.push ⟨key, (fresh l.usedNames (baseName ctx.registry key.target)).1, []⟩)
    (hused : l'.usedNames = (fresh l.usedNames (baseName ctx.registry key.target)).2) :
    NameInv ctx l' := by
  set name := (fresh l.usedNames (baseName ctx.registry key.target)).1
  have hnot : name ∉ l.usedNames := fresh_not_mem _ _
  have hold : ∀ j, j < l.instances.size → keyName l' j = keyName l j := by
    intro j hj
    simp [keyName, hinst, Array.getElem?_push_lt hj, Array.getElem?_eq_getElem hj]
  have hnewAt : keyName l' l.instances.size = some (key, name) := by
    simp [keyName, hinst]
  have hbeyond : ∀ j, l.instances.size < j → keyName l' j = none := by
    intro j hj
    simp only [keyName, hinst, Array.getElem?_push]
    rw [if_neg (by omega), Array.getElem?_eq_none (by omega)]
    rfl
  -- an index is an old one, the new one, or past the end
  have hcases : ∀ j x, keyName l' j = some x →
      (j < l.instances.size ∧ keyName l j = some x) ∨ (j = l.instances.size ∧ x = (key, name)) := by
    intro j x hj
    rcases Nat.lt_trichotomy j l.instances.size with hlt | rfl | hgt
    · exact Or.inl ⟨hlt, (hold j hlt).symm.trans hj⟩
    · exact Or.inr ⟨rfl, Option.some.inj (hj.symm.trans hnewAt)⟩
    · rw [hbeyond j hgt] at hj
      cases hj
  have hseededLe : ctx.rootModule.decls.length ≤ l.instances.size := by
    by_contra hlt
    have := lt_size_of_keyName (h.seeded l.instances.size (by omega))
    omega
  refine ⟨fun j hj => (hold j (by omega)).trans (h.seeded j hj), fun x hx => ?_, ?_, ?_, ?_⟩
  · rw [hused]
    exact mem_fresh_of_mem (h.reserved x hx)
  · intro inst hinst'
    rw [hinst] at hinst'
    rw [hused]
    rcases Array.mem_push.1 hinst' with hmem | rfl
    · exact mem_fresh_of_mem (h.used inst hmem)
    · exact mem_fresh _ _
  · rw [keys, hinst, keys_push, List.nodup_append]
    exact ⟨h.nodup, List.nodup_singleton key, fun a ha b hb hab => by
      rw [List.mem_singleton.1 hb] at hab
      exact hnew (by rw [← show a = key from hab]; exact ha)⟩
  · intro j k' n' hj hkn
    rcases hcases j _ hkn with ⟨hlt, hkn'⟩ | ⟨rfl, hx⟩
    · -- an old instance: still free of the reserved names, and apart from the new name
      obtain ⟨hres, hdist, hvar⟩ := h.later j k' n' hj hkn'
      refine ⟨hres, fun k other hkj ho => ?_, hvar⟩
      rcases hcases k _ ho with ⟨-, ho'⟩ | ⟨-, rfl⟩
      · exact hdist k other hkj ho'
      · intro heq
        exact hnot (by rw [show name = n' from heq]; exact mem_usedNames_of_keyName h.used hkn')
    · -- the new instance: its name was free, so it is none of the reserved or earlier ones
      obtain ⟨rfl, rfl⟩ := Prod.mk.inj hx
      refine ⟨fun hres => hnot (h.reserved _ hres), fun k other hkj ho => ?_, ?_⟩
      · rcases hcases k _ ho with ⟨-, ho'⟩ | ⟨hk, -⟩
        · intro heq
          exact hnot (heq ▸ mem_usedNames_of_keyName h.used ho')
        · exact absurd hk hkj
      · rcases fresh_eq_or_numbered l.usedNames (baseName ctx.registry k'.target) with heq | ⟨n, heq⟩
        · exact Or.inl heq
        · exact Or.inr ⟨n, heq⟩

/-- Every kind of step keeps the invariant. -/
theorem NameInv.step (h : NameInv ctx l) (hs : Step ctx.registry l l') : NameInv ctx l' := by
  cases hs with
  | rename n rs =>
    exact h.of_keyName (keyName_modify_renames l n rs) rfl
  | create key hnew _ hinst hused => exact h.create hnew hinst hused
  | note hinst hused =>
    exact h.of_keyName (fun j => by simp [keyName, hinst]) hused

theorem nameInv_seeded (ctx : LinkContext) : NameInv ctx (seeded ctx) := by
  have hsize : (seeded ctx).instances.size = ctx.rootModule.decls.length := by
    simp [seeded]
  have hat : ∀ j (hj : j < ctx.rootModule.decls.length), keyName (seeded ctx) j =
      some (⟨.decl ctx.root ctx.rootModule.decls[j].1, []⟩, ctx.rootModule.decls[j].2.name) := by
    intro j hj
    simp [keyName, seeded, hj]
  refine ⟨hat, fun x hx => ?_, ?_, ?_, ?_⟩
  · simpa [seeded] using hx
  · -- the root's declarations' names are among the reserved ones
    intro inst hinst
    obtain ⟨j, hj, rfl⟩ := Array.mem_iff_getElem.1 hinst
    have hj' : j < ctx.rootModule.decls.length := hsize ▸ hj
    have hname : (seeded ctx).instances[j].name = ctx.rootModule.decls[j].2.name := by
      simp [seeded]
    rw [hname]
    simp only [seeded, Std.TreeSet.mem_ofList, List.contains_iff_mem, LinkContext.reservedNames,
      List.mem_append, List.mem_map]
    exact Or.inl ⟨_, List.getElem_mem hj', rfl⟩
  · -- root keys differ in their element index
    have hkeys : keys (seeded ctx) = rootKeys ctx := by
      simp [keys, seeded, rootKeys]
    rw [hkeys, rootKeys, List.Nodup, List.pairwise_map]
    refine ctx.rootModule.decls_indices_lt.imp fun {a b} hlt heq => ?_
    simp only [InstanceKey.mk.injEq, ExportTarget.decl.injEq, true_and, and_true] at heq
    omega
  · intro j key name hj hkn
    have := lt_size_of_keyName hkn
    omega

/-- The invariant holds in every state of a walk. -/
theorem nameInv_of_walk {limit : Nat} (h : walk ctx limit = .ok l) : NameInv ctx l := by
  have hsteps := walk_steps h
  clear h
  induction hsteps with
  | refl => exact nameInv_seeded ctx
  | tail _ hstep ih => exact ih.step hstep

/-! ### The names of a link's instances -/

/-- The names of a link's instances: each root declaration's instance is named as the
declaration; every other instance is named by a variant of its base name that is none of the
root's declarations' names, no local name of any module, and no other instance's name. -/
structure OutputNames (ctx : LinkContext) (l : Linker) : Prop where
  root : ∀ d ∈ ctx.rootModule.decls, ∃ inst ∈ l.instances,
    inst.key = ⟨.decl ctx.root d.1, []⟩ ∧ inst.name = d.2.name
  others : ∀ (j : Nat) (inst : Instance), l.instances[j]? = some inst → inst.key ∉ rootKeys ctx →
    (∀ d ∈ ctx.rootModule.decls, inst.name ≠ d.2.name) ∧
    (∀ m ∈ ctx.registry.modules, inst.name ∉ m.scopes.localDeclNames) ∧
    (∀ (k : Nat) (other : Instance), l.instances[k]? = some other → k ≠ j → other.name ≠ inst.name) ∧
    IsVariantOf (baseName ctx.registry inst.key.target) inst.name

theorem NameInv.outputNames (h : NameInv ctx l) : OutputNames ctx l := by
  constructor
  · intro d hd
    obtain ⟨j, hj, rfl⟩ := List.mem_iff_getElem.1 hd
    obtain ⟨inst, hinst, hkey, hname⟩ := keyName_eq_some (h.seeded j hj)
    exact ⟨inst, Array.mem_of_getElem? hinst, hkey, hname⟩
  · intro j inst hinst hkey
    have hkn : keyName l j = some (inst.key, inst.name) := by simp [keyName, hinst]
    -- the first instances are the root's declarations, so this one comes after them
    have hj : ctx.rootModule.decls.length ≤ j := by
      by_contra hlt
      obtain ⟨inst', hinst', hkey', -⟩ := keyName_eq_some (h.seeded j (by omega))
      rw [hinst] at hinst'
      cases hinst'
      exact hkey (hkey' ▸ List.mem_map.2 ⟨_, List.getElem_mem (by omega), rfl⟩)
    obtain ⟨hres, hdist, hvar⟩ := h.later j inst.key inst.name hj hkn
    refine ⟨fun d hd heq => hres ?_, fun m hm hloc => hres ?_, fun k other ho hkj => ?_, hvar⟩
    · exact List.mem_append_left _ (List.mem_map.2 ⟨d, hd, heq.symm⟩)
    · exact List.mem_append_right _ (List.mem_flatMap.2 ⟨m, hm, hloc⟩)
    · exact hdist k (other.key, other.name) hkj (by simp [keyName, ho])

/-- **Output names.** In every state of a link, after seeding and any number of visits, the
root's declarations are named as written, and every other instance is named by a variant of
its base name that is none of the root's declarations' names, no local name of any module of
the registry and no other instance's name. -/
theorem walk_output_names {limit : Nat} (h : walk ctx limit = .ok l) : OutputNames ctx l :=
  (nameInv_of_walk h).outputNames

/-- A root declaring `foo`, and a helper module with a declaration `foo` of its own and a
local `foo0`. -/
def avoidLocals : Registry :=
  (((Registry.empty ⟨⟨[]⟩, defaultBudget⟩).addSource "main.wgsl"
    "import util/helper;\nfn foo() {}\nfn main() { foo(); helper(); }").1.addSource "util.wgsl"
    "fn foo() -> i32 { return 1; }\nfn helper() -> i32 { let foo0 = 2; return foo() + foo0; }").1

set_option maxRecDepth 100000 in
theorem avoidLocals_names :
    ((walk ⟨avoidLocals, ⟨["main"]⟩, ⟨[], false⟩⟩ 10).toOption.map fun l =>
      l.instances.toList.map (·.name)) = some ["foo", "main", "helper", "foo1"] := by
  decide +kernel

/-- The helper's `foo` is linked as `foo1`, past the root's `foo` and the helper's local `foo0`. -/
theorem avoidLocals_output_names : ∃ l, walk ⟨avoidLocals, ⟨["main"]⟩, ⟨[], false⟩⟩ 10 = .ok l ∧
    l.instances.toList.map (·.name) = ["foo", "main", "helper", "foo1"] ∧
    OutputNames ⟨avoidLocals, ⟨["main"]⟩, ⟨[], false⟩⟩ l := by
  obtain ⟨l, hl, hnames⟩ := ok_of_toOption_map avoidLocals_names
  exact ⟨l, hl, hnames, walk_output_names hl⟩

end Linker

end ShaderLink
