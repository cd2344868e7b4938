import ShaderLink.Proofs.Link.Emitted

/-!
# The modules of a link

Beside its instances, a link keeps the modules it has reached (`Linker.modules`). Emitting
reads that list for the directives of the contributing modules and for their sources, so it
matters that it is exactly what its comment says: the root, then every other module that some
declaration instance belongs to, each once, in the order of its first instance
(`contributors`). Every state of a walk has it so (`walk_modulesReached`).

With `wholeFile`, the first instance of a module brings in an instance of each of its
declarations without parameter values; so after a walk every declaration of the root and of
every module with a declaration instance has exactly one such instance
(`link_wholeFile_declarations`).

Both are invariants that speak of a state's keys and modules only. `Keeps ctx I x` says that
every successful run of `x` keeps `I`; it holds of the monad's building blocks, is kept by
`bind` and `for`, and so holds of a whole walk once it holds of `instanceName`, the only
computation that creates instances or reaches modules (`walk_keeps`).
-/

namespace ShaderLink

/-- The module of a declaration target; a generator has none. -/
def ExportTarget.declModule? : ExportTarget → Option ModulePath
  | .decl m _ => some m
  | .generator _ _ => none

namespace Linker

variable {ctx : LinkContext} {l l' : Linker}

/-! ### Reaching a module -/

/-- The modules other than `root` that some declaration instance of `l` belongs to, each once,
in the order of their first instance. -/
def contributors (root : ModulePath) (l : Linker) : List ModulePath :=
  (((keys l).filterMap (·.target.declModule?)).filter (· != root)).eraseDups

/-- The module that a new instance of `key` brings into the link: its declaration's module,
unless the link has it already. -/
def reachedBy (l : Linker) (key : InstanceKey) : Option ModulePath :=
  key.target.declModule?.filter fun p => !l.modules.contains p

/-- A module is a contributor when it is not the root and one of its declarations has an
instance. -/
theorem mem_contributors {root p : ModulePath} :
    p ∈ contributors root l ↔ p ≠ root ∧ ∃ i args, (⟨.decl p i, args⟩ : InstanceKey) ∈ keys l := by
  simp only [contributors, List.mem_eraseDups, List.mem_filter, List.mem_filterMap, bne_iff_ne,
    ne_eq]
  constructor
  · rintro ⟨⟨key, hk, hm⟩, hne⟩
    obtain ⟨target, args⟩ := key
    cases target with
    | decl q i =>
      cases hm
      exact ⟨hne, i, args, hk⟩
    | generator q n => cases hm
  · rintro ⟨hne, i, args, hk⟩
    exact ⟨⟨_, hk, rfl⟩, hne⟩

/-- A new key gets an instance at the end, and the module it reaches joins the link's. -/
theorem ensureInstance_new {key : InstanceKey} (h : l.instances.find? (·.key == key) = none) :
    ∃ l', ((ensureInstance key).run ctx).run l =
        .ok (((fresh l.usedNames (baseName ctx.registry key.target)).1, reachedBy l key), l') ∧
      keys l' = keys l ++ [key] ∧
      l'.modules.toList = l.modules.toList ++ (reachedBy l key).toList := by
  rw [reachedBy]
  cases ht : key.target with
  | decl p i =>
    by_cases hp : p ∈ l.modules
    all_goals
      simp [ensureInstance, h, ht, ExportTarget.declModule?, Option.filter_some, keys]
      refine ⟨_, rfl, ?_, ?_⟩ <;> simp [hp]
  | generator p n =>
    simp [ensureInstance, h, ht, ExportTarget.declModule?, keys]
    refine ⟨_, rfl, ?_, ?_⟩ <;> simp

/-- What `ensureInstance` does to keys and modules: nothing for a key that has an instance;
otherwise it appends the key, and the module it reaches, which it returns. -/
theorem ensureInstance_cases {key : InstanceKey} {r : String × Option ModulePath}
    (h : ((ensureInstance key).run ctx).run l = .ok (r, l')) :
    (key ∈ keys l ∧ l' = l ∧ r.2 = none) ∨
      (key ∉ keys l ∧ keys l' = keys l ++ [key] ∧
        l'.modules.toList = l.modules.toList ++ (reachedBy l key).toList ∧ r.2 = reachedBy l key) := by
  by_cases hk : key ∈ keys l
  · obtain ⟨i, -, hf⟩ := exists_find?_key hk
    rw [ensureInstance_of_find?_some hf] at h
    cases h
    exact Or.inl ⟨hk, rfl, rfl⟩
  · obtain ⟨l₁, he, hkeys, hmods⟩ := @ensureInstance_new ctx l key (find?_key_eq_none hk)
    rw [he] at h
    cases h
    exact Or.inr ⟨hk, hkeys, hmods, rfl⟩

/-- `ensureInstance` keeps every key. -/
theorem keys_sub_of_ensureInstance {key : InstanceKey} {r : String × Option ModulePath}
    (h : ((ensureInstance key).run ctx).run l = .ok (r, l')) : keys l ⊆ keys l' := by
  rcases ensureInstance_cases h with ⟨-, rfl, -⟩ | ⟨-, hkeys, -⟩
  · exact List.Subset.refl _
  · rw [hkeys]
    exact List.subset_append_left _ _

/-! ### Invariants of keys and modules -/

/-- Every successful run of `x` in `ctx` from a state with `I` ends in a state with `I`. -/
def Keeps {α : Type} (ctx : LinkContext) (I : Linker → Prop) (x : LinkM α) : Prop :=
  ∀ l a l', I l → (x.run ctx).run l = .ok (a, l') → I l'

/-- `I` speaks of the keys and the modules of a state only. -/
def OfKeysModules (I : Linker → Prop) : Prop :=
  ∀ l l', keys l' = keys l → l'.modules = l.modules → I l → I l'

section Keeps

variable {α β : Type} {I : Linker → Prop}

theorem keeps_pure (a : α) : Keeps ctx I (pure a : LinkM α) := by
  intro l b l' hI h
  cases h
  exact hI

theorem keeps_bind {x : LinkM α} {f : α → LinkM β} (hx : Keeps ctx I x)
    (hf : ∀ a, Keeps ctx I (f a)) : Keeps ctx I (x >>= f) := by
  intro l b l' hI h
  obtain ⟨a, l₁, h₁, h₂⟩ := run_bind_eq_ok h
  exact hf a l₁ b l' (hx l a l₁ hI h₁) h₂

theorem keeps_map {x : LinkM α} (f : α → β) (hx : Keeps ctx I x) : Keeps ctx I (f <$> x) := by
  rw [map_eq_pure_bind]
  exact keeps_bind hx fun a => keeps_pure (f a)

theorem keeps_read : Keeps ctx I (read : LinkM LinkContext) := by
  intro l a l' hI h
  cases h
  exact hI

theorem keeps_get : Keeps ctx I (get : LinkM Linker) := by
  intro l a l' hI h
  cases h
  exact hI

theorem keeps_fail (e : LinkError) : Keeps ctx I (fail e : LinkM α) := by
  intro l a l' _ h
  cases h

theorem keeps_moduleAt (p : ModulePath) : Keeps ctx I (moduleAt p) := by
  intro l a l' hI h
  cases h
  exact hI

theorem keeps_forIn {γ : Type} (xs : List γ) (f : γ → β → LinkM (ForInStep β))
    (hf : ∀ c ∈ xs, ∀ b, Keeps ctx I (f c b)) (init : β) : Keeps ctx I (forIn xs init f) :=
  fun l b l' hI h =>
    forIn_keeps (fun _ s => I s) xs f (fun c hc b s r s' => hf c hc b s r s') init l b l' hI h

/-- `instanceName` keeps what `ensureInstance` keeps. -/
theorem keeps_instanceName (he : ∀ key, Keeps ctx I (ensureInstance key)) (t : ExportTarget)
    (args : List (String × String)) : Keeps ctx I (instanceName t args) := by
  unfold instanceName
  refine keeps_bind (he _) fun r => ?_
  obtain ⟨name, reached⟩ := r
  dsimp only
  split
  · refine keeps_bind keeps_read fun c => ?_
    split
    · refine keeps_bind (keeps_moduleAt _) fun m => ?_
      refine keeps_bind (keeps_forIn _ _ (fun d _ _ => ?_) _) fun _ => keeps_pure name
      exact keeps_bind (he _) fun _ => keeps_pure _
    · exact keeps_pure name
  · exact keeps_pure name

variable (hI : OfKeysModules I)
include hI

theorem keeps_warn (w : Warning) : Keeps ctx I (warn w) := by
  intro l a l' h hrun
  cases hrun
  exact hI l _ rfl rfl h

theorem keeps_resolveMap (p : ModulePath) : Keeps ctx I (resolveMap p) := by
  intro l m l' h hrun
  rcases resolveMap_cases hrun with ⟨-, rfl⟩ | ⟨ws, -, rfl⟩
  · exact h
  · exact hI l _ rfl rfl h

theorem keeps_setRenames (index : Nat) (rs : Array Splice) :
    Keeps ctx I (modify fun l : Linker => { l with
      instances := l.instances.modify index fun x => { x with renames := rs.toList } }) := by
  intro l a l' h hrun
  cases hrun
  exact hI l _ (keys_modify_renames l index rs.toList) rfl h

/-- Seeding ends in a state with `I` when the seeded state has it: looking up the root's
resolve map changes neither keys nor modules. -/
theorem seed_keeps (h0 : I (seeded ctx)) {u : Unit} (h : ((seed).run ctx).run l = .ok (u, l')) :
    I l' := by
  unfold seed at h
  obtain ⟨c, l₁, hread, h⟩ := run_bind_eq_ok h
  cases hread
  obtain ⟨root, l₂, hmod, h⟩ := run_bind_eq_ok h
  cases hmod
  obtain ⟨u, l₃, hset, h⟩ := run_bind_eq_ok h
  cases hset
  obtain ⟨m, l₄, hmap, h⟩ := run_bind_eq_ok h
  cases h
  exact keeps_resolveMap hI ctx.root _ m l' h0 hmap

variable (hname : ∀ t args, Keeps ctx I (instanceName t args))
include hname

theorem keeps_argValue (importer : ModulePath) (callerArgs : List (String × String))
    (arg : String) : Keeps ctx I (argValue importer callerArgs arg) := by
  unfold argValue
  split
  · exact keeps_pure _
  · refine keeps_bind (keeps_moduleAt _) fun m => ?_
    split
    · exact hname _ _
    · refine keeps_bind (keeps_resolveMap hI _) fun rm => ?_
      split
      · exact hname _ _
      · exact keeps_pure _

theorem keeps_instanceArgs (importer : ModulePath) (callerArgs : List (String × String))
    (target : ExportTarget) (importArgs : Option (List String)) (span : Span) :
    Keeps ctx I (instanceArgs importer callerArgs target importArgs span) := by
  unfold instanceArgs
  refine keeps_bind keeps_read fun c => ?_
  split
  refine keeps_bind (keeps_forIn _ _ (fun c _ args => ?_) _) fun _ => keeps_pure _
  obtain ⟨⟨param, default⟩, position⟩ := c
  dsimp only
  split <;> [refine keeps_bind (keeps_map _ (keeps_argValue hI hname _ _ _)) fun value => ?_;
    refine keeps_bind (keeps_pure _) fun value => ?_]
  all_goals
    split
    · exact keeps_pure _
    · split
      · exact keeps_bind (keeps_moduleAt _) fun _ =>
          keeps_bind (keeps_warn hI _) fun _ => keeps_pure _
      · exact keeps_pure _

theorem keeps_linkReference (p : ModulePath) (args : List (String × String)) (r : Reference) :
    Keeps ctx I (linkReference p args r) := by
  unfold linkReference
  refine keeps_bind (keeps_moduleAt _) fun module => ?_
  dsimp only
  split
  · split
    · exact keeps_pure _
    · split
      · exact keeps_pure _
      · exact keeps_bind (hname _ _) fun _ => keeps_pure _
  · split <;> [split; skip]
    · exact keeps_pure _
    all_goals
      refine keeps_bind (keeps_resolveMap hI _) fun rm => ?_
      split
      · exact keeps_bind (keeps_instanceArgs hI hname _ _ _ _ _) fun ia =>
          keeps_bind (hname _ _) fun _ => keeps_pure _
      · split
        · exact keeps_bind (keeps_warn hI _) fun _ => keeps_pure _
        · exact keeps_pure _
      · exact keeps_fail _

theorem keeps_visitInstance (index : Nat) (inst : Instance) :
    Keeps ctx I (visitInstance index inst) := by
  unfold visitInstance
  split
  · exact keeps_pure _
  · refine keeps_bind (keeps_moduleAt _) fun module => ?_
    split
    · split <;> refine keeps_bind (keeps_forIn _ _ (fun r _ rs => ?_) _) fun rs =>
        keeps_setRenames hI _ _
      all_goals
        refine keeps_bind (keeps_linkReference hI hname _ _ _) fun linked => ?_
        split
        · split <;> exact keeps_pure _
        · exact keeps_pure _
    · exact keeps_pure _

theorem keeps_visitFrom : ∀ (fuel next : Nat), Keeps ctx I (visitFrom fuel next)
  | 0, _ => keeps_pure _
  | fuel + 1, next => by
    unfold visitFrom
    refine keeps_bind keeps_get fun s => ?_
    split
    · refine keeps_bind ?_ fun _ => keeps_visitFrom fuel (next + 1)
      unfold visit
      refine keeps_bind keeps_get fun s' => ?_
      split
      · exact keeps_visitInstance hI hname _ _
      · exact keeps_pure _
    · exact keeps_pure _

/-- **What a walk keeps.** An invariant of keys and modules that the seeded state has and that
`instanceName` keeps holds at the end of every walk. -/
theorem walk_keeps (h0 : I (seeded ctx)) {limit : Nat} (h : walk ctx limit = .ok l) : I l := by
  unfold walk at h
  cases hrun : ((seed >>= fun _ => visitFrom limit 0 : LinkM Unit).run ctx).run initial with
  | error e =>
    simp only [hrun] at h
    cases h
  | ok r =>
    simp only [hrun] at h
    cases h
    obtain ⟨u, l₁, hs, hv⟩ := run_bind_eq_ok hrun
    exact keeps_visitFrom hI hname limit 0 l₁ u r.2 (seed_keeps hI h0 hs) hv

end Keeps

/-! ### The modules reached -/

/-- The modules a link has reached are the root and then the contributors. -/
def ModulesReached (root : ModulePath) (l : Linker) : Prop :=
  l.modules.toList = root :: contributors root l

theorem ofKeysModules_modulesReached (root : ModulePath) : OfKeysModules (ModulesReached root) := by
  intro l l' hk hm h
  rw [ModulesReached, contributors, hm, hk]
  exact h

/-- A new key adds its module to the contributors, unless that is the root or a contributor
already. -/
theorem contributors_snoc (root : ModulePath) {key : InstanceKey} (h : keys l' = keys l ++ [key]) :
    contributors root l' = contributors root l ++
      (key.target.declModule?.filter fun p => p != root && !(contributors root l).contains p).toList := by
  obtain ⟨target, args⟩ := key
  unfold contributors
  rw [h, List.filterMap_append, List.filter_append, List.eraseDups_append]
  congr 1
  cases target with
  | decl p i =>
    by_cases hp : p = root
    · simp [ExportTarget.declModule?, hp]
    · simp [ExportTarget.declModule?, hp, List.removeAll, List.filter_cons, Option.filter_some]
      split <;> simp [List.eraseDups_cons]
  | generator p n => simp [ExportTarget.declModule?]

/-- Reaching a new module makes it a contributor. -/
theorem keeps_ensureInstance_modulesReached (key : InstanceKey) :
    Keeps ctx (ModulesReached ctx.root) (ensureInstance key) := by
  intro l r l' h hrun
  rcases ensureInstance_cases hrun with ⟨-, rfl, -⟩ | ⟨-, hkeys, hmods, -⟩
  · exact h
  · -- the link has a module when it is the root or a contributor
    have hc : ∀ p, p ∈ l.modules ↔ p = ctx.root ∨ p ∈ contributors ctx.root l := by
      intro p
      rw [← Array.mem_toList_iff, h, List.mem_cons]
    rw [ModulesReached, contributors_snoc ctx.root hkeys, hmods, h, reachedBy]
    cases key.target with
    | decl p i =>
      by_cases hp : p = ctx.root <;> simp [ExportTarget.declModule?, Option.filter_some, hc, hp]
    | generator p n => simp [ExportTarget.declModule?]

/-- The seeded state has reached the root only, and its instances are all the root's. -/
theorem modulesReached_seeded (ctx : LinkContext) : ModulesReached ctx.root (seeded ctx) := by
  simp [ModulesReached, contributors, seeded, keys, ExportTarget.declModule?]

/-- **The modules of a walk.** Every walk ends with the root and then the contributors as its
modules, in the order of their first instances. -/
theorem walk_modulesReached {limit : Nat} (h : walk ctx limit = .ok l) :
    ModulesReached ctx.root l :=
  walk_keeps (ofKeysModules_modulesReached _) (keeps_instanceName keeps_ensureInstance_modulesReached)
    (modulesReached_seeded ctx) h

/-- A module with a declaration instance has been reached. -/
theorem mem_modules_of_key {root : ModulePath} (h : ModulesReached root l) {p : ModulePath}
    {i : Nat} {args : List (String × String)} (hk : (⟨.decl p i, args⟩ : InstanceKey) ∈ keys l) :
    p ∈ l.modules.toList := by
  rw [h, List.mem_cons]
  by_cases hp : p = root
  · exact Or.inl hp
  · exact Or.inr (mem_contributors.2 ⟨hp, i, args, hk⟩)

/-! ### Whole modules -/

/-- Every declaration of every module the link has reached has an instance without parameter
values. -/
def WholeModules (reg : Registry) (l : Linker) : Prop :=
  ∀ p ∈ l.modules.toList, ∀ d ∈ ((reg.module? p).getD default).decls,
    (⟨.decl p d.1, []⟩ : InstanceKey) ∈ keys l

theorem ofKeysModules_wholeModules (reg : Registry) : OfKeysModules (WholeModules reg) := by
  intro l l' hk hm h p hp d hd
  rw [hk]
  rw [hm] at hp
  exact h p hp d hd

theorem wholeModules_seeded (ctx : LinkContext) : WholeModules ctx.registry (seeded ctx) := by
  intro p hp d hd
  simp only [seeded, List.toList_toArray, List.mem_singleton] at hp
  subst hp
  simp only [keys, seeded, List.toList_toArray, List.map_map, List.mem_map]
  exact ⟨d, hd, rfl⟩

/-- A `for` loop whose body, on each element `c`, keeps `P` and every key, adds the key `key c`
and goes on, ends with all those keys. -/
theorem forIn_adds_keys {γ β : Type} (P : Linker → Prop) (key : γ → InstanceKey) (xs : List γ)
    (f : γ → β → LinkM (ForInStep β))
    (hf : ∀ c ∈ xs, ∀ b s r s', P s → ((f c b).run ctx).run s = .ok (r, s') →
      P s' ∧ keys s ⊆ keys s' ∧ key c ∈ keys s' ∧ ∃ b', r = .yield b') :
    ∀ init s b s', P s → ((forIn xs init f).run ctx).run s = .ok (b, s') →
      P s' ∧ keys s ⊆ keys s' ∧ ∀ c ∈ xs, key c ∈ keys s' := by
  induction xs with
  | nil =>
    intro init s b s' hP h
    cases h
    exact ⟨hP, List.Subset.refl _, fun c hc => absurd hc List.not_mem_nil⟩
  | cons c xs ih =>
    intro init s b s' hP h
    rw [List.forIn_cons] at h
    obtain ⟨r, s₁, h₁, h⟩ := run_bind_eq_ok h
    obtain ⟨hP₁, hsub₁, hc₁, b₁, rfl⟩ := hf c List.mem_cons_self init s r s₁ hP h₁
    obtain ⟨hP', hsub', hall⟩ :=
      ih (fun c hc => hf c (List.mem_cons_of_mem _ hc)) b₁ s₁ b s' hP₁ h
    refine ⟨hP', List.Subset.trans hsub₁ hsub', fun c' hc' => ?_⟩
    rcases List.mem_cons.1 hc' with rfl | hc'
    · exact hsub' hc₁
    · exact hall c' hc'

/-- With `wholeFile`, naming an instance keeps every declaration of every reached module
instantiated: a module it reaches gets an instance of each of its declarations. -/
theorem keeps_instanceName_wholeModules (hw : ctx.options.wholeFile = true) (t : ExportTarget)
    (args : List (String × String)) :
    Keeps ctx (WholeModules ctx.registry) (instanceName t args) := by
  intro l name l' h hrun
  unfold instanceName at hrun
  obtain ⟨⟨name₁, reached⟩, l₁, he, hrun⟩ := run_bind_eq_ok hrun
  have hsub := keys_sub_of_ensureInstance he
  cases reached with
  | none =>
    -- no module is reached, and the keys only grow
    cases hrun
    have hmods : l'.modules.toList = l.modules.toList := by
      rcases ensureInstance_cases he with ⟨-, rfl, -⟩ | ⟨-, -, hmods, hr⟩
      · rfl
      · rw [hmods, ← hr, Option.toList_none, List.append_nil]
    intro p hp d hd
    exact hsub (h p (hmods ▸ hp) d hd)
  | some m =>
    have hmods₁ : l₁.modules.toList = l.modules.toList ++ [m] := by
      rcases ensureInstance_cases he with ⟨-, -, hr⟩ | ⟨-, -, hmods, hr⟩
      · cases hr
      · rw [hmods, ← hr]
        rfl
    obtain ⟨c, l₂, hread, hrun⟩ := run_bind_eq_ok hrun
    cases hread
    rw [if_pos hw] at hrun
    obtain ⟨module, l₃, hmod, hrun⟩ := run_bind_eq_ok hrun
    cases hmod
    obtain ⟨u, l₄, hloop, hrun⟩ := run_bind_eq_ok hrun
    cases hrun
    -- the loop over the reached module's declarations adds the instance of each
    have hadds := forIn_adds_keys (fun s => s.modules = l₁.modules)
      (fun d => ⟨.decl m d.1, []⟩) _ _ ?_ _ l₁ u l' rfl hloop
    · obtain ⟨hP, hsub', hall⟩ := hadds
      intro p hp d hd
      rw [hP, hmods₁] at hp
      rcases List.mem_append.1 hp with hp | hp
      · exact hsub' (hsub (h p hp d hd))
      · rw [List.mem_singleton.1 hp] at hd ⊢
        exact hall d hd
    · intro d _ b s r s' hs hbody
      obtain ⟨u', s₁, he', hbody⟩ := run_bind_eq_ok hbody
      cases hbody
      have hm : m ∈ s.modules := by
        rw [← Array.mem_toList_iff, hs, hmods₁]
        exact List.mem_append_right _ (List.mem_singleton_self m)
      rcases ensureInstance_cases he' with ⟨hk, rfl, -⟩ | ⟨-, hkeys, hmods', -⟩
      · exact ⟨hs, List.Subset.refl _, hk, _, rfl⟩
      · -- the declaration's module is there already, so the modules stay as they are
        have hnone : reachedBy s ⟨.decl m d.1, []⟩ = none := by
          simp [reachedBy, ExportTarget.declModule?, hm]
        rw [hnone, Option.toList_none, List.append_nil] at hmods'
        refine ⟨(Array.toList_inj.1 hmods').trans hs, ?_, ?_, _, rfl⟩
        · rw [hkeys]
          exact List.subset_append_left _ _
        · rw [hkeys]
          exact List.mem_append_right _ (List.mem_singleton_self _)

/-- With `wholeFile`, every walk ends with an instance without parameter values of every
declaration of every module it has reached. -/
theorem walk_wholeModules (hw : ctx.options.wholeFile = true) {limit : Nat}
    (h : walk ctx limit = .ok l) : WholeModules ctx.registry l :=
  walk_keeps (ofKeysModules_wholeModules _) (keeps_instanceName_wholeModules hw)
    (wholeModules_seeded ctx) h

end Linker

open Linker

/-- A successful link is a walk from the root's declarations and the emission of where it
ends. -/
theorem emit_of_link {reg : Registry} {root : ModulePath} {options : LinkOptions} {o : LinkOutput}
    (h : link reg root options = .ok o) :
    ∃ l, walk ⟨reg, root, options⟩ visitLimit = .ok l ∧ emit reg root l = .ok o := by
  unfold link linkWithin at h
  split at h
  · cases h
  · obtain ⟨l, hwalk, h⟩ := exists_of_bind_eq_ok h
    dsimp only at h
    split at h
    · cases h
    · split at h
      · next o' hemit =>
        cases h
        exact ⟨l, hwalk, hemit⟩
      · cases h

/-- What a walk ends with is emitted as `Emitted` says. -/
theorem emitted_of_walk {reg : Registry} {root : ModulePath} {options : LinkOptions} {l : Linker}
    {o : LinkOutput} (hwalk : walk ⟨reg, root, options⟩ visitLimit = .ok l)
    (h : emit reg root l = .ok o) : Emitted reg root l o.text := by
  have hg := Steps.good (walk_steps hwalk) (good_seeded _)
  refine emit_emitted (fun inst hinst => hg.targets _ ?_) h
  exact List.mem_map.2 ⟨inst, Array.mem_toList_iff.2 hinst, rfl⟩

/-- **Whole modules.** With `wholeFile`, a successful link's text is laid out as `Emitted`
says, and every declaration of the root and of every module with a declaration instance has
exactly one instance without parameter values: the root's within the root's text, each other
one as one piece of the text. -/
theorem link_wholeFile_declarations {reg : Registry} {root : ModulePath} {options : LinkOptions}
    {o : LinkOutput} (hw : options.wholeFile = true) (h : link reg root options = .ok o) :
    ∃ l, walk ⟨reg, root, options⟩ visitLimit = .ok l ∧ Emitted reg root l o.text ∧
      ∀ M, (M = root ∨ ∃ i args, (⟨.decl M i, args⟩ : InstanceKey) ∈ keys l) →
        ∀ d ∈ ((reg.module? M).getD default).decls,
          (keys l).count ⟨.decl M d.1, []⟩ = 1 := by
  obtain ⟨l, hwalk, hemit⟩ := emit_of_link h
  refine ⟨l, hwalk, emitted_of_walk hwalk hemit, fun M hM d hd => ?_⟩
  have hreach : ModulesReached root l := walk_modulesReached hwalk
  -- the module has been reached, so its declarations have their instances, each once
  have hmem : M ∈ l.modules.toList := by
    rcases hM with rfl | ⟨i, args, hk⟩
    · rw [hreach]
      exact List.mem_cons_self
    · exact mem_modules_of_key hreach hk
  exact List.count_eq_one_of_mem (nameInv_of_walk hwalk).nodup
    (walk_wholeModules hw hwalk M hmem d hd)

/-- A root that imports one declaration of a module with two. -/
def wholeUtil : Registry :=
  (((Registry.empty ⟨⟨[]⟩, defaultBudget⟩).addSource "main.wgsl"
    "import util/a;\nfn main() \x7b a(); \x7d").1.addSource "util.wgsl"
    "fn a() \x7b\x7d\nfn b() \x7b\x7d").1

set_option maxRecDepth 100000 in
theorem wholeUtil_text :
    ((link wholeUtil (ModulePath.parse "main") ⟨[], true⟩).toOption.map fun o => o.text) =
      some "fn main() \x7b a(); \x7d\n\nfn a() \x7b\x7d\n\nfn b() \x7b\x7d" := by
  decide +kernel

/-- With `wholeFile`, the declaration `b`, which nothing links to, is emitted with `a`. -/
theorem wholeUtil_declarations :
    ∃ o, link wholeUtil (ModulePath.parse "main") ⟨[], true⟩ = .ok o ∧
      o.text = "fn main() \x7b a(); \x7d\n\nfn a() \x7b\x7d\n\nfn b() \x7b\x7d" ∧
      ∃ l, walk ⟨wholeUtil, ModulePath.parse "main", ⟨[], true⟩⟩ visitLimit = .ok l ∧
        Emitted wholeUtil (ModulePath.parse "main") l o.text ∧
        ∀ M, (M = ModulePath.parse "main" ∨ ∃ i args, (⟨.decl M i, args⟩ : InstanceKey) ∈ keys l) →
          ∀ d ∈ ((wholeUtil.module? M).getD default).decls,
            (keys l).count ⟨.decl M d.1, []⟩ = 1 := by
  obtain ⟨o, ho, htext⟩ := ok_of_toOption_map wholeUtil_text
  exact ⟨o, ho, htext, link_wholeFile_declarations rfl ho⟩

end ShaderLink
