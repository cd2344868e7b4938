import ShaderLink.Proofs.Link.Growth

/-!
# Visits grow the state and can be replayed

Each function of the linker, followed through its definition, grows the state by steps
(`Grows`), and those that only link (resolving a module's map, naming an instance, the value of
an import argument, the arguments of an instance, a reference) also replay (`Replays`): run
again in a later state of the same link, they return the same names and add nothing. The
reason is one lemma: a key that has an instance is found, in any state where keys are distinct,
at that instance (`find?_of_keyName`), so naming it again returns the same name.

A visit reads the instance it visits, so it replays only for an instance that was there before
it ran (`visit_replays`); the whole walk, from the seeded state on, is a chain of steps
(`walk_steps`).
-/

namespace ShaderLink

namespace Linker

section Functions

variable {ctx : LinkContext} {l₀ l₁ l l' : Linker}

/-! ### Resolve maps and warnings -/

theorem grows_warn (w : Warning) : Grows ctx (warn w) := by
  intro l a l' _ h
  cases h
  refine .single (.note rfl rfl fun hc => ?_)
  exact hc.of_resolveMaps rfl

theorem replays_warn (w : Warning) : Replays ctx (warn w) := by
  refine ⟨grows_warn w, fun l₀ a l₁ l _ h he => ?_⟩
  cases h
  exact ⟨_, rfl, fun _ => rfl, he.cache.of_resolveMaps rfl⟩

/-- What a run of `resolveMap` does: it returns the cached map, or builds the module's map,
caches it and records its warnings. -/
theorem resolveMap_cases {p : ModulePath} {m : ResolveMap}
    (h : ((resolveMap p).run ctx).run l = .ok (m, l')) :
    (l.resolveMaps.lookup p = some m ∧ l' = l) ∨
      ∃ ws, buildResolveMap ctx.registry ((ctx.registry.module? p).getD default) = .ok (m, ws) ∧
        l' = { l with resolveMaps := (p, m) :: l.resolveMaps, warnings := l.warnings ++ ws.toArray } := by
  unfold resolveMap at h
  obtain ⟨l₀, l₁, hget, h⟩ := run_bind_eq_ok h
  cases hget
  split at h
  · next m' hcached =>
    cases h
    exact Or.inl ⟨hcached, rfl⟩
  · obtain ⟨module, l₂, hmod, h⟩ := run_bind_eq_ok h
    cases hmod
    obtain ⟨ctx', l₃, hread, h⟩ := run_bind_eq_ok h
    cases hread
    split at h
    · cases h
    · next m' ws hb =>
      obtain ⟨u, l₄, hmodify, h⟩ := run_bind_eq_ok h
      cases hmodify
      cases h
      exact Or.inr ⟨ws, hb, rfl⟩

theorem resolveMap_instances {p : ModulePath} {m : ResolveMap}
    (h : ((resolveMap p).run ctx).run l = .ok (m, l')) : l'.instances = l.instances := by
  rcases resolveMap_cases h with ⟨-, rfl⟩ | ⟨ws, -, rfl⟩ <;> rfl

theorem grows_resolveMap (p : ModulePath) : Grows ctx (resolveMap p) := by
  intro l m l' _ h
  rcases resolveMap_cases h with ⟨-, rfl⟩ | ⟨ws, hb, rfl⟩
  · exact .refl
  · -- the new cached map is the built one
    refine .single (.note rfl rfl fun hc q mq hq => ?_)
    simp only [List.lookup_cons] at hq
    split at hq
    · next hqp =>
      cases hq
      rw [beq_iff_eq.1 hqp]
      exact ⟨ws, hb⟩
    · exact hc q mq hq

/-- The resolve map a link uses for a module is the one built from it. -/
theorem returns_resolveMap {p : ModulePath} {m : ResolveMap} (h : Returns ctx (resolveMap p) m) :
    ∃ ws, buildResolveMap ctx.registry ((ctx.registry.module? p).getD default) = .ok (m, ws) := by
  obtain ⟨l, l', hg, h⟩ := h
  rcases resolveMap_cases h with ⟨hcached, -⟩ | ⟨ws, hb, -⟩
  · exact hg.cache p m hcached
  · exact ⟨ws, hb⟩

/-- A reference that resolves through a module's map names an existing target. -/
theorem Returns.found_exists {p : ModulePath} {m : ResolveMap} (h : Returns ctx (resolveMap p) m)
    {r : List String} {t : ExportTarget} {path : List String} {a : Option (List String)}
    (hr : m.resolve r = .found t path a) : t.Exists ctx.registry := by
  obtain ⟨ws, hb⟩ := returns_resolveMap h
  exact resolve_found_exists hb hr

/-- A resolve map is the one built from its module, whether it was cached or not. -/
theorem replays_resolveMap (p : ModulePath) : Replays ctx (resolveMap p) := by
  refine ⟨grows_resolveMap p, fun l₀ m l₁ l hg h he => ?_⟩
  obtain ⟨ws, hb⟩ := returns_resolveMap ⟨l₀, l₁, hg, h⟩
  obtain ⟨l', hr, hc, hinst, -⟩ := resolveMap_of_built he.cache hb
  exact ⟨l', hr, fun j => by simp only [keyName, hinst], hc⟩

theorem grows_ensureInstance {key : InstanceKey} (hexists : key.target.Exists ctx.registry) :
    Grows ctx (ensureInstance key) := by
  intro l a l' _ h
  cases hf : l.instances.find? (·.key == key) with
  | some i =>
    rw [ensureInstance_of_find?_some hf] at h
    cases h
    exact .refl
  | none =>
    obtain ⟨reached, l₁, he, hi, hu, hr⟩ := @ensureInstance_of_find?_none ctx l _ hf
    rw [he] at h
    cases h
    refine .single (.create key ?_ hexists hi hu hr)
    intro hk
    obtain ⟨i, hi, hfi⟩ := exists_find?_key hk
    rw [hf] at hfi
    cases hfi

theorem grows_instanceName {t : ExportTarget} (args : List (String × String))
    (hexists : t.Exists ctx.registry) : Grows ctx (instanceName t args) := by
  unfold instanceName
  refine grows_bind (grows_ensureInstance hexists) fun r _ => ?_
  obtain ⟨name, reached⟩ := r
  dsimp only
  split
  · refine grows_bind grows_read fun c _ => ?_
    split
    · -- with `wholeFile`, every declaration of the module gets an instance too
      refine grows_bind (grows_moduleAt _) fun m hm => ?_
      rw [returns_moduleAt hm]
      refine grows_bind (grows_forIn _ _ (fun d hd _ => ?_) _) fun _ _ => grows_pure name
      exact grows_bind (grows_ensureInstance ⟨d.2, hd⟩) fun _ _ => grows_pure _
    · exact grows_pure name
  · exact grows_pure name

/-! ### Naming instances -/

/-- `ensureInstance` returns the name of an instance of its key. -/
theorem keyName_of_ensureInstance {key : InstanceKey} {name : String}
    {reached : Option ModulePath}
    (h : ((ensureInstance key).run ctx).run l = .ok ((name, reached), l')) :
    ∃ j, keyName l' j = some (key, name) := by
  cases hf : l.instances.find? (·.key == key) with
  | some i =>
    rw [ensureInstance_of_find?_some hf] at h
    cases h
    obtain ⟨j, hj, rfl⟩ := Array.mem_iff_getElem.1 (Array.mem_of_find?_eq_some hf)
    have hk := Array.find?_some hf
    rw [beq_iff_eq] at hk
    exact ⟨j, by simp [keyName, hj, hk]⟩
  | none =>
    obtain ⟨reached', l₂, he, hi, -, -⟩ := @ensureInstance_of_find?_none ctx l _ hf
    rw [he] at h
    cases h
    exact ⟨l.instances.size, by simp [keyName, hi]⟩

/-- In a state where no two instances share a key, looking a key up finds the instance that
has it. -/
theorem find?_of_keyName {key : InstanceKey} {name : String} {j : Nat} (hn : (keys l).Nodup)
    (hj : keyName l j = some (key, name)) :
    ∃ i, l.instances.find? (·.key == key) = some i ∧ i.name = name := by
  obtain ⟨inst, hinst, rfl, rfl⟩ := keyName_eq_some hj
  have hmem : inst.key ∈ keys l := List.mem_map.2 ⟨inst, Array.mem_toList_iff.2
    (Array.mem_of_getElem? hinst), rfl⟩
  obtain ⟨i, hi, hf⟩ := exists_find?_key hmem
  refine ⟨i, hf, ?_⟩
  -- the instance found has the key too, so by distinct keys it sits at `j`
  obtain ⟨k, hk, rfl⟩ := Array.mem_iff_getElem.1 hi
  have hkey := Array.find?_some hf
  rw [beq_iff_eq] at hkey
  have hk' : keyName l k = some (inst.key, l.instances[k].name) := by
    simp [keyName, Array.getElem?_eq_getElem hk, hkey]
  obtain rfl := index_eq_of_keyName hn hk' hj
  rw [Array.getElem?_eq_getElem hk] at hinst
  cases hinst
  rfl

theorem instanceName_of_find?_some {t : ExportTarget} {args : List (String × String)}
    {i : Instance} (h : l.instances.find? (·.key == ⟨t, args⟩) = some i) :
    ((instanceName t args).run ctx).run l = .ok (i.name, l) := by
  unfold instanceName
  rw [run_bind_ok (ensureInstance_of_find?_some h)]
  rfl

/-- `instanceName` names an instance by `ensureInstance`, and what follows only adds
instances (with `wholeFile`, those of a newly reached module's declarations). -/
theorem instanceName_spec {t : ExportTarget} {args : List (String × String)} {name : String}
    (hexists : t.Exists ctx.registry) (hg : Good ctx.registry l)
    (h : ((instanceName t args).run ctx).run l = .ok (name, l')) :
    ∃ reached l₁, ((ensureInstance ⟨t, args⟩).run ctx).run l = .ok ((name, reached), l₁) ∧
      Relation.ReflTransGen (Step ctx.registry) l₁ l' := by
  unfold instanceName at h
  obtain ⟨⟨name', reached⟩, l₁, he, h⟩ := run_bind_eq_ok h
  have hg₁ := Steps.good (grows_ensureInstance hexists l _ l₁ hg he) hg
  dsimp only at h
  split at h
  · obtain ⟨c, l₂, hread, h⟩ := run_bind_eq_ok h
    cases hread
    split at h
    · obtain ⟨m, l₃, hm, h⟩ := run_bind_eq_ok h
      cases hm
      obtain ⟨u, l₄, hloop, h⟩ := run_bind_eq_ok h
      cases h
      refine ⟨_, l₁, he, grows_forIn _ _ (fun d hd _ => ?_) _ l₁ u l' hg₁ hloop⟩
      exact grows_bind (grows_ensureInstance ⟨d.2, hd⟩) fun _ _ => grows_pure _
    · cases h
      exact ⟨_, _, he, .refl⟩
  · cases h
    exact ⟨_, _, he, .refl⟩

/-- `instanceName` returns the name of an instance of its target and arguments. -/
theorem keyName_of_instanceName {t : ExportTarget} {args : List (String × String)}
    {name : String} (hexists : t.Exists ctx.registry) (hg : Good ctx.registry l)
    (h : ((instanceName t args).run ctx).run l = .ok (name, l')) :
    ∃ j, keyName l' j = some (⟨t, args⟩, name) := by
  obtain ⟨reached, l₁, he, hsteps⟩ := instanceName_spec hexists hg h
  obtain ⟨j, hj⟩ := keyName_of_ensureInstance he
  exact ⟨j, (Steps.keyName_of_lt hsteps (lt_size_of_keyName hj)).trans hj⟩

/-- Naming an instance again finds the instance named the first time. -/
theorem replays_instanceName {t : ExportTarget} (args : List (String × String))
    (hexists : t.Exists ctx.registry) : Replays ctx (instanceName t args) := by
  refine ⟨grows_instanceName args hexists, fun l₀ name l₁ l hg h he => ?_⟩
  obtain ⟨j, hj⟩ := keyName_of_instanceName hexists hg h
  have hjl := (he.keyName_eq j (lt_size_of_keyName hj)).trans hj
  obtain ⟨i, hf, rfl⟩ := find?_of_keyName he.nodup hjl
  exact ⟨l, instanceName_of_find?_some hf, .refl he.cache⟩

/-! ### Linking -/

theorem replays_argValue (importer : ModulePath) (callerArgs : List (String × String))
    (arg : String) : Replays ctx (argValue importer callerArgs arg) := by
  unfold argValue
  split
  · exact replays_pure _
  · refine replays_bind (replays_moduleAt _) fun m hm => ?_
    rw [returns_moduleAt hm]
    split
    · next i d hd => exact replays_instanceName _ ⟨d, List.mem_of_find?_eq_some hd⟩
    · refine replays_bind (replays_resolveMap _) fun rm hrm => ?_
      split
      · next t _ hr => exact replays_instanceName _ (hrm.found_exists hr)
      · exact replays_pure _

theorem replays_instanceArgs (importer : ModulePath) (callerArgs : List (String × String))
    (target : ExportTarget) (importArgs : Option (List String)) (span : Span) :
    Replays ctx (instanceArgs importer callerArgs target importArgs span) := by
  unfold instanceArgs
  refine replays_bind replays_read fun c _ => ?_
  split
  refine replays_bind (replays_forIn _ _ (fun c _ args => ?_) _) fun _ _ => replays_pure _
  obtain ⟨⟨param, default⟩, position⟩ := c
  dsimp only
  -- the value of a parameter, then its entry, with a warning for a generator's missing value
  split <;> [refine replays_bind (replays_map _ (replays_argValue _ _ _)) fun value _ => ?_;
    refine replays_bind (replays_pure _) fun value _ => ?_]
  all_goals
    split
    · exact replays_pure _
    · split
      · exact replays_bind (replays_moduleAt _) fun _ _ =>
          replays_bind (replays_warn _) fun _ _ => replays_pure _
      · exact replays_pure _

theorem replays_linkReference (p : ModulePath) (args : List (String × String)) (r : Reference) :
    Replays ctx (linkReference p args r) := by
  unfold linkReference
  refine replays_bind (replays_moduleAt _) fun module hm => ?_
  rw [returns_moduleAt hm]
  dsimp only
  split
  · -- a bound reference: a local stays as written, a module-level one links to its instance
    split
    · exact replays_pure _
    · split
      · exact replays_pure _
      · next i d hd =>
        exact replays_bind (replays_instanceName _ ⟨d, List.mem_of_find?_eq_some hd⟩)
          fun _ _ => replays_pure _
  · -- an unbound reference: a parameter of the instance stays as written, anything else is
    -- resolved through the imports
    split <;> [split; skip]
    · exact replays_pure _
    all_goals
      refine replays_bind (replays_resolveMap _) fun rm hrm => ?_
      split
      · next t _ _ hr =>
        exact replays_bind (replays_instanceArgs _ _ _ _ _) fun ia _ =>
          replays_bind (replays_instanceName _ (hrm.found_exists hr)) fun _ _ => replays_pure _
      · split
        · exact replays_bind (replays_warn _) fun _ _ => replays_pure _
        · exact replays_pure _
      · exact replays_fail _

/-! ### Visits -/

/-- Recording the renames of one instance is a step. -/
theorem grows_setRenames (index : Nat) (rs : Array Splice) :
    Grows ctx (modify fun l : Linker => { l with
      instances := l.instances.modify index fun x => { x with renames := rs.toList } }) := by
  intro l a l' _ h
  cases h
  exact .single (.rename _ _ _)

theorem replays_setRenames (index : Nat) (rs : Array Splice) :
    Replays ctx (modify fun l : Linker => { l with
      instances := l.instances.modify index fun x => { x with renames := rs.toList } }) := by
  refine ⟨grows_setRenames index rs, fun l₀ a l₁ l _ h he => ?_⟩
  cases h
  exact ⟨_, rfl, keyName_modify_renames l index rs.toList, he.cache.of_resolveMaps rfl⟩

theorem replays_visitInstance (index : Nat) (inst : Instance) :
    Replays ctx (visitInstance index inst) := by
  unfold visitInstance
  split
  · exact replays_pure _
  · refine replays_bind (replays_moduleAt _) fun module _ => ?_
    split
    · -- the references are linked, then the renames are recorded
      split <;> refine replays_bind (replays_forIn _ _ (fun r _ rs => ?_) _) fun rs _ =>
        replays_setRenames _ _
      all_goals
        refine replays_bind (replays_linkReference _ _ _) fun linked _ => ?_
        split
        · split <;> exact replays_pure _
        · exact replays_pure _
    · exact replays_pure _

/-- A visit reads the key and the name of the instance it visits, not its renames. -/
theorem visitInstance_congr {index : Nat} {inst inst' : Instance} (hk : inst.key = inst'.key)
    (hn : inst.name = inst'.name) : visitInstance index inst = visitInstance index inst' := by
  obtain ⟨k, n, rs⟩ := inst
  obtain ⟨k', n', rs'⟩ := inst'
  cases hk
  cases hn
  rfl

theorem visit_of_getElem? {n : Nat} {inst : Instance} (h : l.instances[n]? = some inst) :
    ((visit n).run ctx).run l = ((visitInstance n inst).run ctx).run l := by
  unfold visit
  rw [run_bind_ok (x := get) rfl]
  simp only [h]

theorem grows_visit (index : Nat) : Grows ctx (visit index) := by
  intro l a l' hg h
  cases hinst : l.instances[index]? with
  | none =>
    unfold visit at h
    obtain ⟨s, l₂, hget, h⟩ := run_bind_eq_ok h
    cases hget
    simp only [hinst] at h
    cases h
    exact .refl
  | some inst =>
    rw [visit_of_getElem? hinst] at h
    exact (replays_visitInstance index inst).1 l a l' hg h

/-- **Visiting again adds nothing.** An instance visited in a walk, visited again in any later
state of the link, links its references to the instances its first visit linked them to: the
visit returns, keeps every key and name, and adds no instance. -/
theorem visit_replays {n : Nat} (hg : Good ctx.registry l₀) (hn : n < l₀.instances.size)
    (h : ((visit n).run ctx).run l₀ = .ok ((), l₁)) (he : Extends ctx.registry l₁ l) :
    ∃ l', ((visit n).run ctx).run l = .ok ((), l') ∧ Unchanged ctx.registry l l' := by
  have he₀ : Extends ctx.registry l₀ l := he.of_steps (grows_visit n l₀ () l₁ hg h)
  have h₀ : l₀.instances[n]? = some l₀.instances[n] := Array.getElem?_eq_getElem hn
  have hkn : keyName l n = keyName l₀ n := he₀.keyName_eq n hn
  rw [keyName, keyName, h₀] at hkn
  obtain ⟨inst, hinst, hkey⟩ := Option.map_eq_some_iff.1 hkn
  obtain ⟨hk, hname⟩ := Prod.mk.inj hkey
  rw [visit_of_getElem? h₀] at h
  rw [visit_of_getElem? hinst, visitInstance_congr hk hname]
  exact (replays_visitInstance n _).2 l₀ () l₁ l hg h he

theorem grows_visitFrom : ∀ (fuel next : Nat), Grows ctx (visitFrom fuel next)
  | 0, _ => grows_pure _
  | fuel + 1, next => by
    unfold visitFrom
    refine grows_bind grows_get fun l _ => ?_
    split
    · exact grows_bind (grows_visit next) fun _ _ => grows_visitFrom fuel (next + 1)
    · exact grows_pure _

end Functions

/-! ### Whole walks -/

end Linker

/-- The root module of a link. -/
def LinkContext.rootModule (ctx : LinkContext) : ParsedModule :=
  (ctx.registry.module? ctx.root).getD default

/-- The names a link's other instances must avoid: the root's declarations' and every local
name of every module of the registry. -/
def LinkContext.reservedNames (ctx : LinkContext) : List String :=
  ctx.rootModule.decls.map (·.2.name) ++ ctx.registry.modules.flatMap (·.scopes.localDeclNames)

namespace Linker

/-- The state a link is seeded with: the root's declarations under their own names, and the
reserved names. -/
def seeded (ctx : LinkContext) : Linker where
  instances := (ctx.rootModule.decls.map fun d => ⟨⟨.decl ctx.root d.1, []⟩, d.2.name, []⟩).toArray
  usedNames := Std.TreeSet.ofList ctx.reservedNames compare
  resolveMaps := []
  modules := #[ctx.root]
  warnings := #[]

/-- The seeded state is a good one: nothing is cached, and the root's declarations exist. -/
theorem good_seeded (ctx : LinkContext) : Good ctx.registry (seeded ctx) := by
  refine ⟨fun p m hp => by simp [seeded] at hp, fun key hkey => ?_⟩
  simp only [keys, seeded, List.toList_toArray, List.map_map, List.mem_map] at hkey
  obtain ⟨d, hd, rfl⟩ := hkey
  exact ⟨d.2, hd⟩

theorem seed_steps {ctx : LinkContext} {l l' : Linker} (h : ((seed).run ctx).run l = .ok ((), l')) :
    Relation.ReflTransGen (Step ctx.registry) (seeded ctx) l' := by
  unfold seed at h
  obtain ⟨c, l₁, hread, h⟩ := run_bind_eq_ok h
  cases hread
  obtain ⟨root, l₂, hmod, h⟩ := run_bind_eq_ok h
  cases hmod
  obtain ⟨u, l₃, hset, h⟩ := run_bind_eq_ok h
  cases hset
  obtain ⟨m, l₄, hmap, h⟩ := run_bind_eq_ok h
  cases h
  exact grows_resolveMap ctx.root _ m l' (good_seeded ctx) hmap

/-- A walk, however far it goes, is a chain of steps from the seeded state. -/
theorem walk_steps {ctx : LinkContext} {limit : Nat} {l : Linker} (h : walk ctx limit = .ok l) :
    Relation.ReflTransGen (Step ctx.registry) (seeded ctx) l := by
  unfold walk at h
  cases hrun : ((seed >>= fun _ => visitFrom limit 0 : LinkM Unit).run ctx).run initial with
  | error e =>
    simp only [hrun] at h
    cases h
  | ok r =>
    simp only [hrun] at h
    cases h
    obtain ⟨u, l₁, hs, hv⟩ := run_bind_eq_ok hrun
    have hsteps := seed_steps hs
    exact hsteps.trans (grows_visitFrom limit 0 l₁ u r.2 (Steps.good hsteps (good_seeded ctx)) hv)

end Linker

end ShaderLink
