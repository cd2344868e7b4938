import ShaderLink.Proofs.Link.Steps
import ShaderLink.Proofs.Resolve.Targets
import Mathlib.Logic.Relation

/-!
# How a link's state grows

A link changes its state in three ways only, whatever step it takes (`Step`):

* it records the renames of one instance;
* it creates an instance for a key that has none and whose target exists in the registry,
  under the fresh variant of the key's base name, and reserves that name;
* it notes something that leaves instances and reserved names alone: a resolve map (built
  from its module, so every cached map stays a built one), a warning, a contributing module.

Facts about all reachable states follow from one lemma per kind of step: instances are only
ever appended, keys and names of existing instances never change (`Steps.keyName_of_lt`), no
two instances share a key (`Steps.nodup_keys`), and every target exists (`Steps.good`).

`Grows ctx x` says that every run of the computation `x`, from a state whose cached maps are
built ones and whose instances name existing targets (`Good`), changes the state by such
steps. It holds of the monad's building blocks and is kept by `bind` and by `for` loops; the
continuation of a `bind` may use what the first computation can return (`Returns`), which is
how a key's target is known to exist: it was read off a module of the registry or a built
resolve map.

Which instances a computation reaches depends on the state only through the instances that
already exist, since a key that has an instance is linked to that instance by its name.
`Replays ctx x` says so: `x` grows the state, and run again from any state that keeps the
instances an earlier run ended with (`Extends`), it returns what it returned then and adds
nothing (`Unchanged`). It is kept by the same building blocks.
-/

namespace ShaderLink

namespace Linker

/-- What one step of a link can do to its state. -/
inductive Step (reg : Registry) : Linker → Linker → Prop
  /-- Records the renames of the instance at `n`. -/
  | rename (l : Linker) (n : Nat) (rs : List Splice) :
      Step reg l { l with instances := l.instances.modify n fun x => { x with renames := rs } }
  /-- Creates an instance of a new key whose target exists, under a fresh name, and reserves
  the name. -/
  | create {l l' : Linker} (key : InstanceKey) (hnew : key ∉ keys l)
      (hexists : key.target.Exists reg)
      (hinst : l'.instances =
        l.instances.push ⟨key, (fresh l.usedNames (baseName reg key.target)).1, []⟩)
      (hused : l'.usedNames = (fresh l.usedNames (baseName reg key.target)).2)
      (hmaps : l'.resolveMaps = l.resolveMaps) : Step reg l l'
  /-- Notes a resolve map, a warning or a module, and leaves instances and names alone. -/
  | note {l l' : Linker} (hinst : l'.instances = l.instances) (hused : l'.usedNames = l.usedNames)
      (hcache : CacheOK reg l → CacheOK reg l') : Step reg l l'

/-- A state that steps start from: every cached resolve map is the one built from its module,
and every instance's target exists in the registry. -/
structure Good (reg : Registry) (l : Linker) : Prop where
  cache : CacheOK reg l
  targets : ∀ key ∈ keys l, key.target.Exists reg

theorem Step.good {reg : Registry} {l l' : Linker} (h : Step reg l l') (hg : Good reg l) :
    Good reg l' := by
  cases h with
  | rename n rs =>
    exact ⟨hg.cache.of_resolveMaps rfl, by rw [keys_modify_renames]; exact hg.targets⟩
  | create key _ hexists hinst _ hmaps =>
    refine ⟨hg.cache.of_resolveMaps hmaps, fun k hk => ?_⟩
    rw [keys, hinst, keys_push] at hk
    rcases List.mem_append.1 hk with hk | hk
    · exact hg.targets k hk
    · rw [List.mem_singleton.1 hk]
      exact hexists
  | note hinst _ hcache =>
    exact ⟨hcache hg.cache, by rw [keys, hinst, ← keys]; exact hg.targets⟩

theorem Steps.good {reg : Registry} {l l' : Linker} (h : Relation.ReflTransGen (Step reg) l l')
    (hg : Good reg l) : Good reg l' := by
  induction h with
  | refl => exact hg
  | tail _ hstep ih => exact hstep.good ih

/-! ### What steps keep -/

/-- The key and the name of the instance at an index, which no step changes once it is
there. -/
def keyName (l : Linker) (j : Nat) : Option (InstanceKey × String) :=
  (l.instances[j]?).map fun i => (i.key, i.name)

theorem keyName_modify_renames (l : Linker) (n : Nat) (rs : List Splice) (j : Nat) :
    keyName { l with instances := l.instances.modify n fun x => { x with renames := rs } } j =
      keyName l j := by
  simp only [keyName, Array.getElem?_modify]
  split <;> cases l.instances[j]? <;> rfl

section Steps

variable {reg : Registry} {l l' : Linker}

theorem keyName_eq_some {j : Nat} {key : InstanceKey} {name : String}
    (h : keyName l j = some (key, name)) :
    ∃ inst, l.instances[j]? = some inst ∧ inst.key = key ∧ inst.name = name := by
  obtain ⟨inst, hinst, heq⟩ := Option.map_eq_some_iff.1 h
  cases heq
  exact ⟨inst, hinst, rfl, rfl⟩

theorem lt_size_of_keyName {j : Nat} {x : InstanceKey × String} (h : keyName l j = some x) :
    j < l.instances.size := by
  obtain ⟨inst, hinst, -⟩ := Option.map_eq_some_iff.1 h
  exact (Array.getElem?_eq_some_iff.1 hinst).1

theorem Step.size_le (h : Step reg l l') : l.instances.size ≤ l'.instances.size := by
  cases h with
  | rename => simp
  | create _ _ _ hinst => simp [hinst]
  | note hinst => exact Nat.le_of_eq (congrArg Array.size hinst.symm)

theorem Step.keyName_of_lt (h : Step reg l l') {j : Nat} (hj : j < l.instances.size) :
    keyName l' j = keyName l j := by
  cases h with
  | rename => exact keyName_modify_renames _ _ _ _
  | create _ _ _ hinst => simp [keyName, hinst, Array.getElem?_push_lt hj, Array.getElem?_eq_getElem hj]
  | note hinst => simp [keyName, hinst]

theorem Step.keys_eq (h : Step reg l l') :
    keys l' = keys l ∨ ∃ key, key ∉ keys l ∧ keys l' = keys l ++ [key] := by
  cases h with
  | rename => exact Or.inl (keys_modify_renames _ _ _)
  | create key hnew _ hinst => exact Or.inr ⟨key, hnew, by rw [keys, hinst, keys_push]⟩
  | note hinst => exact Or.inl (by rw [keys, hinst]; rfl)

theorem Step.nodup_keys (h : Step reg l l') (hn : (keys l).Nodup) : (keys l').Nodup := by
  rcases h.keys_eq with heq | ⟨key, hnew, heq⟩
  · rwa [heq]
  · rw [heq, List.nodup_append]
    exact ⟨hn, List.nodup_singleton key, fun a ha b hb => by
      rw [List.mem_singleton.1 hb]
      exact fun hab => hnew (hab ▸ ha)⟩

theorem Steps.size_le (h : Relation.ReflTransGen (Step reg) l l') :
    l.instances.size ≤ l'.instances.size := by
  induction h with
  | refl => exact Nat.le_refl _
  | tail _ hstep ih => exact Nat.le_trans ih hstep.size_le

/-- Along steps, instances are only appended, and those already there keep key and name. -/
theorem Steps.keyName_of_lt (h : Relation.ReflTransGen (Step reg) l l') {j : Nat}
    (hj : j < l.instances.size) : keyName l' j = keyName l j := by
  induction h with
  | refl => rfl
  | tail hsteps hstep ih =>
    rw [hstep.keyName_of_lt (Nat.lt_of_lt_of_le hj (Steps.size_le hsteps)), ih]

theorem Steps.nodup_keys (h : Relation.ReflTransGen (Step reg) l l') (hn : (keys l).Nodup) :
    (keys l').Nodup := by
  induction h with
  | refl => exact hn
  | tail _ hstep ih => exact hstep.nodup_keys ih

end Steps

/-- Every run of `x` in `ctx` that starts from a good state and succeeds changes the state by
steps. -/
def Grows {α : Type} (ctx : LinkContext) (x : LinkM α) : Prop :=
  ∀ l a l', Good ctx.registry l → ((x.run ctx).run l = .ok (a, l')) →
    Relation.ReflTransGen (Step ctx.registry) l l'

/-- `x` can return `a` in `ctx`, from a good state. -/
def Returns {α : Type} (ctx : LinkContext) (x : LinkM α) (a : α) : Prop :=
  ∃ l l', Good ctx.registry l ∧ (x.run ctx).run l = .ok (a, l')

/-! ### Building blocks -/

section Building

variable {α β : Type} {ctx : LinkContext}

theorem run_bind_eq_ok {x : LinkM α} {f : α → LinkM β} {l l' : Linker}
    {b : β} (h : ((x >>= f).run ctx).run l = .ok (b, l')) :
    ∃ a l₁, (x.run ctx).run l = .ok (a, l₁) ∧ ((f a).run ctx).run l₁ = .ok (b, l') := by
  simp only [ReaderT.run_bind, StateT.run_bind] at h
  cases hx : (x.run ctx).run l with
  | error e =>
    rw [hx] at h
    cases h
  | ok r =>
    rw [hx] at h
    exact ⟨r.1, r.2, rfl, h⟩

theorem grows_pure (a : α) : Grows ctx (pure a : LinkM α) := by
  intro l b l' _ h
  cases h
  exact .refl

/-- A `bind` grows the state when its first computation does and its continuation does for
every value the first can return. -/
theorem grows_bind {x : LinkM α} {f : α → LinkM β} (hx : Grows ctx x)
    (hf : ∀ a, Returns ctx x a → Grows ctx (f a)) : Grows ctx (x >>= f) := by
  intro l b l' hg h
  obtain ⟨a, l₁, h₁, h₂⟩ := run_bind_eq_ok h
  have hsteps := hx l a l₁ hg h₁
  exact hsteps.trans (hf a ⟨l, l₁, hg, h₁⟩ l₁ b l' (Steps.good hsteps hg) h₂)

theorem grows_map {x : LinkM α} (f : α → β) (hx : Grows ctx x) : Grows ctx (f <$> x) := by
  rw [map_eq_pure_bind]
  exact grows_bind hx fun a _ => grows_pure (f a)

theorem grows_read : Grows ctx (read : LinkM LinkContext) := by
  intro l a l' _ h
  cases h
  exact .refl

theorem grows_get : Grows ctx (get : LinkM Linker) := by
  intro l a l' _ h
  cases h
  exact .refl

theorem grows_fail (e : LinkError) : Grows ctx (fail e : LinkM α) := by
  intro l a l' _ h
  cases h

theorem grows_moduleAt (p : ModulePath) : Grows ctx (moduleAt p) := by
  intro l a l' _ h
  cases h
  exact .refl

theorem returns_moduleAt {p : ModulePath} {m : ParsedModule} (h : Returns ctx (moduleAt p) m) :
    m = (ctx.registry.module? p).getD default := by
  obtain ⟨l, l', -, h⟩ := h
  cases h
  rfl

/-- A `for` loop whose body grows the state, on every element it runs on, grows it. -/
theorem grows_forIn {γ : Type} (xs : List γ) (f : γ → β → LinkM (ForInStep β))
    (hf : ∀ c ∈ xs, ∀ b, Grows ctx (f c b)) : ∀ init, Grows ctx (forIn xs init f) := by
  induction xs with
  | nil => exact fun init => grows_pure init
  | cons c xs ih =>
    intro init
    rw [List.forIn_cons]
    refine grows_bind (hf c List.mem_cons_self init) fun r _ => ?_
    cases r with
    | done b => exact grows_pure b
    | yield b => exact ih (fun c hc => hf c (List.mem_cons_of_mem _ hc)) b

end Building


/-! ### Running again in a later state -/

/-- `l` keeps the instances of `l₀` under the same keys and names, maybe with more after them;
no two of its instances share a key, and its cached maps are built ones. -/
structure Extends (reg : Registry) (l₀ l : Linker) : Prop where
  keyName_eq : ∀ j < l₀.instances.size, keyName l j = keyName l₀ j
  nodup : (keys l).Nodup
  cache : CacheOK reg l

/-- `l'` has the instances of `l` under the same keys and names, and no other; its cached maps
are built ones. -/
structure Unchanged (reg : Registry) (l l' : Linker) : Prop where
  keyName_eq : ∀ j, keyName l' j = keyName l j
  cache : CacheOK reg l'

/-- Running `x` again, from a state that extends the end of an earlier run, returns what that
run returned and adds no instance. -/
def Replays {α : Type} (ctx : LinkContext) (x : LinkM α) : Prop :=
  Grows ctx x ∧ ∀ l₀ a l₁ l, Good ctx.registry l₀ → (x.run ctx).run l₀ = .ok (a, l₁) →
    Extends ctx.registry l₁ l →
    ∃ l', (x.run ctx).run l = .ok (a, l') ∧ Unchanged ctx.registry l l'

section Replay

variable {reg : Registry} {l₀ l₁ l l' l'' : Linker}

theorem getElem?_keys (l : Linker) (j : Nat) : (keys l)[j]? = (keyName l j).map (·.1) := by
  simp [keys, keyName, Function.comp_def]

/-- Where no two instances share a key, an instance is the only one with its key. -/
theorem index_eq_of_keyName {j k : Nat} {key : InstanceKey} {a b : String} (hn : (keys l).Nodup)
    (hj : keyName l j = some (key, a)) (hk : keyName l k = some (key, b)) : j = k := by
  have hjk : (keys l)[j]? = (keys l)[k]? := by rw [getElem?_keys, getElem?_keys, hj, hk]; rfl
  exact (List.getElem?_inj (by rw [length_keys]; exact lt_size_of_keyName hj) hn).1 hjk

theorem Unchanged.refl (hc : CacheOK reg l) : Unchanged reg l l := ⟨fun _ => rfl, hc⟩

theorem Unchanged.trans (h : Unchanged reg l l') (h' : Unchanged reg l' l'') :
    Unchanged reg l l'' :=
  ⟨fun j => (h'.keyName_eq j).trans (h.keyName_eq j), h'.cache⟩

theorem Unchanged.keys_eq (h : Unchanged reg l l') : keys l' = keys l :=
  List.ext_getElem? fun j => by rw [getElem?_keys, getElem?_keys, h.keyName_eq]

theorem Unchanged.extends (h : Unchanged reg l l') (he : Extends reg l₁ l) : Extends reg l₁ l' :=
  ⟨fun j hj => (h.keyName_eq j).trans (he.keyName_eq j hj), h.keys_eq ▸ he.nodup, h.cache⟩

/-- What extends the end of a chain of steps extends its start. -/
theorem Extends.of_steps (he : Extends reg l₁ l) (hs : Relation.ReflTransGen (Step reg) l₀ l₁) :
    Extends reg l₀ l :=
  ⟨fun j hj => (he.keyName_eq j (Nat.lt_of_lt_of_le hj (Steps.size_le hs))).trans
    (Steps.keyName_of_lt hs hj), he.nodup, he.cache⟩

end Replay

section ReplayBuilding

variable {α β : Type} {ctx : LinkContext}

theorem replays_pure (a : α) : Replays ctx (pure a : LinkM α) := by
  refine ⟨grows_pure a, fun l₀ b l₁ l _ h he => ?_⟩
  cases h
  exact ⟨l, rfl, .refl he.cache⟩

/-- A `bind` replays when its first computation does and its continuation does for every value
the first can return: the first run again ends in a state that still extends where the
continuation's first run ended. -/
theorem replays_bind {x : LinkM α} {f : α → LinkM β} (hx : Replays ctx x)
    (hf : ∀ a, Returns ctx x a → Replays ctx (f a)) : Replays ctx (x >>= f) := by
  refine ⟨grows_bind hx.1 fun a ha => (hf a ha).1, fun l₀ b l₁ l hg h he => ?_⟩
  obtain ⟨a, l₂, h₁, h₂⟩ := run_bind_eq_ok h
  have hfa := hf a ⟨l₀, l₂, hg, h₁⟩
  have hsteps := hx.1 l₀ a l₂ hg h₁
  have hg₂ := Steps.good hsteps hg
  obtain ⟨l', hx', hu⟩ := hx.2 l₀ a l₂ l hg h₁ (he.of_steps (hfa.1 l₂ b l₁ hg₂ h₂))
  obtain ⟨l'', hf', hu'⟩ := hfa.2 l₂ b l₁ l' hg₂ h₂ (hu.extends he)
  exact ⟨l'', by rw [run_bind_ok hx']; exact hf', hu.trans hu'⟩

theorem replays_map {x : LinkM α} (f : α → β) (hx : Replays ctx x) : Replays ctx (f <$> x) := by
  rw [map_eq_pure_bind]
  exact replays_bind hx fun a _ => replays_pure (f a)

theorem replays_read : Replays ctx (read : LinkM LinkContext) := by
  refine ⟨grows_read, fun l₀ a l₁ l _ h he => ?_⟩
  cases h
  exact ⟨l, rfl, .refl he.cache⟩

theorem replays_fail (e : LinkError) : Replays ctx (fail e : LinkM α) :=
  ⟨grows_fail e, fun _ _ _ _ _ h => by cases h⟩

theorem replays_moduleAt (p : ModulePath) : Replays ctx (moduleAt p) := by
  refine ⟨grows_moduleAt p, fun l₀ a l₁ l _ h he => ?_⟩
  cases h
  exact ⟨l, rfl, .refl he.cache⟩

/-- A `for` loop whose body replays, on every element it runs on, replays. -/
theorem replays_forIn {γ : Type} (xs : List γ) (f : γ → β → LinkM (ForInStep β))
    (hf : ∀ c ∈ xs, ∀ b, Replays ctx (f c b)) : ∀ init, Replays ctx (forIn xs init f) := by
  induction xs with
  | nil => exact fun init => replays_pure init
  | cons c xs ih =>
    intro init
    rw [List.forIn_cons]
    refine replays_bind (hf c List.mem_cons_self init) fun r _ => ?_
    cases r with
    | done b => exact replays_pure b
    | yield b => exact ih (fun c hc => hf c (List.mem_cons_of_mem _ hc)) b

end ReplayBuilding

end Linker

end ShaderLink
