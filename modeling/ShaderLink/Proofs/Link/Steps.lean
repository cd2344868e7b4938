import ShaderLink.Link.Emit
import ShaderLink.Proofs.Link.Fresh

/-!
# A link, one step at a time

What each step of a link does to the linker's state, stated as a run of the step from a state
to a result and a new state. Later proofs chain these lemmas and never unfold a step.

* The monad's own operations run as expected (`run_get`, `run_bind_ok`, ...).
* `ensureInstance` returns the name of an instance with the key, or pushes a new instance
  under a fresh name; `instanceName` does the same when the link is not whole-file.
* `resolveMap` returns the map built from the module, whether cached or built now, as long as
  every cached map is such a map (`CacheOK`); it changes neither instances nor names.
* `argValue`, `instanceArgs` and `linkReference` are given in the cases where a reference goes
  through an import whose argument names a declaration of the importing module.
* `visit` links the references of one instance and changes only that instance's renames.
* The visiting loop keeps any property that one visit keeps and that always leaves an instance
  to visit (`visitFrom_of_step`); a link whose walk outlasts its budget stops with the stalled
  fault (`linkWithin_of_walk`).
-/

namespace ShaderLink

namespace Linker

variable {ctx : LinkContext} {l : Linker}

/-! ### The monad -/

@[simp] theorem except_ok_bind {ε α β : Type} (a : α) (f : α → Except ε β) :
    (Except.ok a : Except ε α) >>= f = f a := rfl

@[simp] theorem run_get : ((get : LinkM Linker).run ctx).run l = pure (l, l) := rfl
@[simp] theorem run_read : ((read : LinkM LinkContext).run ctx).run l = pure (ctx, l) := rfl
@[simp] theorem run_modify (f : Linker → Linker) :
    ((modify f : LinkM PUnit).run ctx).run l = pure (⟨⟩, f l) := rfl
@[simp] theorem run_set (l' : Linker) : ((set l' : LinkM PUnit).run ctx).run l = pure (⟨⟩, l') := rfl
@[simp] theorem run_pure {α : Type} (a : α) : ((pure a : LinkM α).run ctx).run l = pure (a, l) := rfl

theorem ok_of_toOption_map {ε α β : Type} {e : Except ε α} {f : α → β} {b : β}
    (h : e.toOption.map f = some b) : ∃ a, e = .ok a ∧ f a = b := by
  cases e with
  | error _ => simp [Except.toOption] at h
  | ok a => exact ⟨a, rfl, by simpa [Except.toOption] using h⟩

theorem run_bind_ok {α β : Type} {x : LinkM α} {f : α → LinkM β} {a : α} {l' : Linker}
    (hx : (x.run ctx).run l = .ok (a, l')) :
    ((x >>= f).run ctx).run l = ((f a).run ctx).run l' := by
  simp only [ReaderT.run_bind, StateT.run_bind, hx]
  rfl

@[simp] theorem moduleAt_run (p : ModulePath) :
    ((moduleAt p).run ctx).run l = pure ((ctx.registry.module? p).getD default, l) := rfl

/-! ### Instances -/

theorem ensureInstance_of_find?_some {key : InstanceKey} {i : Instance}
    (h : l.instances.find? (·.key == key) = some i) :
    ((ensureInstance key).run ctx).run l = .ok ((i.name, none), l) := by
  simp [ensureInstance, h]
  rfl

theorem ensureInstance_of_find?_none {key : InstanceKey}
    (h : l.instances.find? (·.key == key) = none) :
    ∃ reached l', ((ensureInstance key).run ctx).run l =
        .ok (((fresh l.usedNames (baseName ctx.registry key.target)).1, reached), l') ∧
      l'.instances = l.instances.push
        ⟨key, (fresh l.usedNames (baseName ctx.registry key.target)).1, []⟩ ∧
      l'.usedNames = (fresh l.usedNames (baseName ctx.registry key.target)).2 ∧
      l'.resolveMaps = l.resolveMaps := by
  simp [ensureInstance, h]
  exact ⟨_, _, rfl, rfl, rfl, rfl⟩

theorem instanceName_of_ensureInstance (hw : ctx.options.wholeFile = false) {t : ExportTarget}
    {args : List (String × String)} {name : String} {reached : Option ModulePath} {l' : Linker}
    (h : ((ensureInstance ⟨t, args⟩).run ctx).run l = .ok ((name, reached), l')) :
    ((instanceName t args).run ctx).run l = .ok (name, l') := by
  unfold instanceName
  rw [run_bind_ok h]
  cases reached <;> simp [hw] <;> rfl

theorem argValue_of_findDecl? {importer : ModulePath} {callerArgs : List (String × String)}
    {arg : String} {i : Nat} {d : Declaration}
    (hc : callerArgs.find? (·.1 == arg) = none)
    (hd : ((ctx.registry.module? importer).getD default).findDecl? arg = some (i, d)) :
    ((argValue importer callerArgs arg).run ctx).run l =
      ((instanceName (.decl importer i) callerArgs).run ctx).run l := by
  simp [argValue, hc, hd]


theorem instanceArgs_of_single_param {importer m : ModulePath} {mod : ParsedModule} {i : Nat}
    {d : Declaration} {callerArgs : List (String × String)} {arg param v : String} {span : Span}
    {l' : Linker} (hm : ctx.registry.module? m = some mod) (hd : mod.decl? i = some d)
    (hdp : d.params = [param])
    (hv : ((argValue importer callerArgs arg).run ctx).run l = .ok (v, l')) :
    ((instanceArgs importer callerArgs (.decl m i) (some [arg]) span).run ctx).run l =
      .ok ([(param, v)], l') := by
  simp [instanceArgs, hm, hd, hdp, hv]

/-! ### Resolve maps -/

/-- Every resolve map that the linker has cached is the one built from its module. -/
def CacheOK (reg : Registry) (l : Linker) : Prop :=
  ∀ p m, l.resolveMaps.lookup p = some m →
    ∃ ws, buildResolveMap reg ((reg.module? p).getD default) = .ok (m, ws)

theorem resolveMap_of_built {p : ModulePath} {m : ResolveMap} {ws : List Warning}
    (hcache : CacheOK ctx.registry l)
    (hb : buildResolveMap ctx.registry ((ctx.registry.module? p).getD default) = .ok (m, ws)) :
    ∃ l', ((resolveMap p).run ctx).run l = .ok (m, l') ∧ CacheOK ctx.registry l' ∧
      l'.instances = l.instances ∧ l'.usedNames = l.usedNames := by
  cases hl : l.resolveMaps.lookup p with
  | some m' =>
    obtain ⟨ws', hb'⟩ := hcache p m' hl
    rw [hb] at hb'
    cases hb'
    refine ⟨l, ?_, hcache, rfl, rfl⟩
    simp [resolveMap, hl]
    rfl
  | none =>
    refine ⟨{ l with resolveMaps := (p, m) :: l.resolveMaps, warnings := l.warnings ++ ws.toArray },
      ?_, ?_, rfl, rfl⟩
    · simp [resolveMap, hl, hb]
      rfl
    · intro q m' hq
      simp only [List.lookup_cons] at hq
      split at hq
      · next hqp =>
        cases hq
        rw [beq_iff_eq.1 hqp]
        exact ⟨ws, hb⟩
      · exact hcache q m' hq


theorem CacheOK.of_resolveMaps {reg : Registry} {l' : Linker} (h : CacheOK reg l)
    (he : l'.resolveMaps = l.resolveMaps) : CacheOK reg l' := by
  intro p m hp
  rw [he] at hp
  exact h p m hp

/-! ### Keys and names -/

/-- The instance keys of a linker, in order of creation. -/
def keys (l : Linker) : List InstanceKey := l.instances.toList.map (·.key)

/-- Every instance's name is reserved. -/
def NamesUsed (l : Linker) : Prop := ∀ inst ∈ l.instances, inst.name ∈ l.usedNames

theorem length_keys (l : Linker) : (keys l).length = l.instances.size := by
  simp [keys]

theorem keys_push (l : Linker) (i : Instance) :
    (l.instances.push i).toList.map (·.key) = keys l ++ [i.key] := by
  simp [keys]

/-- Changing the renames of an instance keeps every key. -/
theorem keys_modify_renames (l : Linker) (n : Nat) (rs : List Splice) :
    keys { l with instances := l.instances.modify n fun x => { x with renames := rs } } = keys l := by
  apply List.ext_getElem?
  intro j
  simp only [keys, Array.toList_modify, List.getElem?_map, List.getElem?_modify]
  split <;> cases l.instances.toList[j]? <;> rfl

theorem instance_of_keys {n : Nat} {k : InstanceKey} (h : (keys l)[n]? = some k) :
    ∃ inst, l.instances[n]? = some inst ∧ inst.key = k := by
  simp only [keys, List.getElem?_map, Array.getElem?_toList] at h
  exact Option.map_eq_some_iff.1 h

theorem find?_key_eq_none {k : InstanceKey} (h : k ∉ keys l) :
    l.instances.find? (·.key == k) = none := by
  rw [Array.find?_eq_none]
  intro x hx hk
  exact h (List.mem_map.2 ⟨x, Array.mem_toList_iff.2 hx, beq_iff_eq.1 hk⟩)

theorem exists_find?_key {k : InstanceKey} (h : k ∈ keys l) :
    ∃ i ∈ l.instances, l.instances.find? (·.key == k) = some i := by
  cases hf : l.instances.find? (·.key == k) with
  | none =>
    obtain ⟨x, hx, rfl⟩ := List.mem_map.1 h
    exact absurd (Array.find?_eq_none.1 hf x (Array.mem_toList_iff.1 hx)) (by simp)
  | some i => exact ⟨i, Array.mem_of_find?_eq_some hf, rfl⟩

/-- Changing the renames of an instance keeps every name. -/
theorem namesUsed_modify_renames {n : Nat} {rs : List Splice} (h : NamesUsed l) :
    NamesUsed { l with instances := l.instances.modify n fun x => { x with renames := rs } } := by
  intro inst hinst
  obtain ⟨j, hj, rfl⟩ := Array.mem_iff_getElem.1 hinst
  have hj' : j < l.instances.size := by simpa using hj
  have hname : (l.instances.modify n fun x => { x with renames := rs })[j].name =
      l.instances[j].name := by
    simp only [Array.getElem_modify]
    split <;> rfl
  rw [hname]
  exact h _ (Array.getElem_mem hj')

/-- A key that an instance has: `instanceName` returns that instance's name and changes
nothing. -/
theorem instanceName_of_mem (hw : ctx.options.wholeFile = false) {key : InstanceKey}
    (h : key ∈ keys l) (hn : NamesUsed l) :
    ∃ name, ((instanceName key.target key.args).run ctx).run l = .ok (name, l) ∧
      name ∈ l.usedNames := by
  obtain ⟨i, hi, hf⟩ := exists_find?_key h
  exact ⟨i.name, instanceName_of_ensureInstance hw (ensureInstance_of_find?_some hf), hn i hi⟩

/-- A key that no instance has: `instanceName` adds an instance at the end, under a name that
was free and is reserved from then on. -/
theorem instanceName_of_new (hw : ctx.options.wholeFile = false) {key : InstanceKey}
    (h : key ∉ keys l) :
    ∃ name l', ((instanceName key.target key.args).run ctx).run l = .ok (name, l') ∧
      name ∉ l.usedNames ∧ keys l' = keys l ++ [key] ∧ name ∈ l'.usedNames ∧
      (∀ y ∈ l.usedNames, y ∈ l'.usedNames) ∧ l'.resolveMaps = l.resolveMaps := by
  obtain ⟨reached, l', he, hi, hu, hr⟩ := @ensureInstance_of_find?_none ctx l _ (find?_key_eq_none h)
  refine ⟨_, l', instanceName_of_ensureInstance hw he, fresh_not_mem _ _, ?_, ?_, ?_, hr⟩
  · rw [keys, hi, keys_push]
  · rw [hu]
    exact mem_fresh _ _
  · intro y hy
    rw [hu]
    exact mem_fresh_of_mem hy

/-! ### Seeding -/

theorem seed_spec {m : ResolveMap} {ws : List Warning}
    (hb : buildResolveMap ctx.registry ((ctx.registry.module? ctx.root).getD default) = .ok (m, ws)) :
    ∃ l₀, ((seed).run ctx).run l = .ok ((), l₀) ∧
      keys l₀ = ((ctx.registry.module? ctx.root).getD default).decls.map
        (fun d => ⟨.decl ctx.root d.1, []⟩) ∧
      NamesUsed l₀ ∧ CacheOK ctx.registry l₀ := by
  let root := (ctx.registry.module? ctx.root).getD default
  let l₀ : Linker :=
    { instances := (root.decls.map fun d => ⟨⟨.decl ctx.root d.1, []⟩, d.2.name, []⟩).toArray
      usedNames := Std.TreeSet.ofList (root.decls.map (·.2.name) ++
        ctx.registry.modules.flatMap (·.scopes.localDeclNames)) compare
      resolveMaps := []
      modules := #[ctx.root]
      warnings := #[] }
  have hcache₀ : CacheOK ctx.registry l₀ := by
    intro p m hp
    simp [l₀] at hp
  obtain ⟨l₁, hr, hcache, hinst, hused⟩ := resolveMap_of_built hcache₀ hb
  refine ⟨l₁, ?_, ?_, ?_, hcache⟩
  · simp [seed]
    rw [hr]
    rfl
  · simp [keys, hinst, l₀]
    rfl
  · -- the root's declarations are named as written, and those names are reserved
    intro inst h
    rw [hinst] at h
    rw [hused]
    obtain ⟨⟨i, d⟩, hd, rfl⟩ := List.mem_map.1 (List.mem_toArray.1 h)
    simp only [l₀, Std.TreeSet.mem_ofList, List.contains_iff_mem, List.mem_append, List.mem_map]
    exact Or.inl ⟨(i, d), hd, rfl⟩

/-! ### References and visits -/

theorem linkReference_of_import {p : ModulePath} {args : List (String × String)} {r : Reference}
    {name : String} {rm : ResolveMap} {t : ExportTarget} {ep : List String}
    {ia : Option (List String)} {vs : List (String × String)} {n : String} {l₁ l₂ l₃ : Linker}
    (hb : ((((ctx.registry.module? p).getD default).scopes.idents[r.ident]?).bind (·.binding)) = none)
    (hpath : r.path = [name]) (hargs : args.any (·.1 == name) = false)
    (hres : ((resolveMap p).run ctx).run l = .ok (rm, l₁))
    (hfound : rm.resolve r.path = .found t ep ia)
    (hia : ((instanceArgs p args t ia r.span).run ctx).run l₁ = .ok (vs, l₂))
    (hname : ((instanceName t vs).run ctx).run l₂ = .ok (n, l₃)) :
    ((linkReference p args r).run ctx).run l = .ok (some n, l₃) := by
  rw [hpath] at hfound
  simp [linkReference, hb, hpath, hargs, hres, hfound, hia, hname]


theorem visit_of_no_references {n : Nat} {inst : Instance} {p : ModulePath} {i : Nat}
    {d : Declaration} (hinst : l.instances[n]? = some inst) (ht : inst.key.target = .decl p i)
    (hd : ((ctx.registry.module? p).getD default).decl? i = some d)
    (hrefs : ((ctx.registry.module? p).getD default).references d = []) :
    ∃ rs, ((visit n).run ctx).run l =
      .ok ((), { l with instances := l.instances.modify n fun x => { x with renames := rs } }) := by
  simp [visit, visitInstance, hinst, ht, hd, hrefs]
  split <;> exact ⟨_, rfl⟩

theorem visit_of_single_reference {n : Nat} {inst : Instance} {p : ModulePath} {i : Nat}
    {d : Declaration} {r : Reference} {o : Option String} {l₁ : Linker}
    (hinst : l.instances[n]? = some inst) (ht : inst.key.target = .decl p i)
    (hd : ((ctx.registry.module? p).getD default).decl? i = some d)
    (hrefs : ((ctx.registry.module? p).getD default).references d = [r])
    (hlink : ((linkReference p inst.key.args r).run ctx).run l = .ok (o, l₁)) :
    ∃ rs, ((visit n).run ctx).run l =
      .ok ((), { l₁ with instances := l₁.instances.modify n fun x => { x with renames := rs } }) := by
  simp [visit, visitInstance, hinst, ht, hd, hrefs]
  -- the renames depend on the name and on what the reference linked to; the state does not
  split <;> simp [hlink] <;> cases o <;> simp <;> (try split) <;> exact ⟨_, rfl⟩


/-- A property of the states that the visits reach, one after another, that always leaves an
instance to visit holds after any number of visits: the loop never runs out of work. -/
theorem visitFrom_of_step (Inv : Nat → Linker → Prop)
    (hsize : ∀ n l, Inv n l → n < l.instances.size)
    (hstep : ∀ n l, Inv n l → ∃ l', ((visit n).run ctx).run l = .ok ((), l') ∧ Inv (n + 1) l') :
    ∀ fuel n l, Inv n l →
      ∃ l', ((visitFrom fuel n).run ctx).run l = .ok ((), l') ∧ Inv (n + fuel) l'
  | 0, _, l, h => ⟨l, rfl, h⟩
  | fuel + 1, n, l, h => by
    obtain ⟨l₁, hv, h₁⟩ := hstep n l h
    obtain ⟨l₂, hr, h₂⟩ := visitFrom_of_step Inv hsize hstep fuel (n + 1) l₁ h₁
    refine ⟨l₂, ?_, by rwa [show n + (fuel + 1) = n + 1 + fuel by omega]⟩
    simp [visitFrom, hsize n l h, hv, hr]

theorem walk_of_runs {limit : Nat} {l₀ l : Linker}
    (hseed : ((seed).run ctx).run initial = .ok ((), l₀))
    (hvisits : ((visitFrom limit 0).run ctx).run l₀ = .ok ((), l)) :
    walk ctx limit = .ok l := by
  simp [walk, hseed, hvisits]

end Linker

/-- A link whose walk still has instances to visit when its budget is spent stops with the
stalled fault. -/
theorem linkWithin_of_walk {limit : Nat} {reg : Registry} {root : ModulePath}
    {options : LinkOptions} {m : ParsedModule} {l : Linker} (hroot : reg.module? root = some m)
    (hwalk : Linker.walk ⟨reg, root, options⟩ limit = .ok l) (hlt : limit < l.instances.size) :
    linkWithin limit reg root options = .error (.fault .stalled) := by
  simp [linkWithin, hroot, hwalk, hlt]
  rfl

end ShaderLink
