import ShaderLink.Proofs.Link.Names

/-!
# Which instances a link reaches

A link starts from the root's declarations and visits its instances in order of creation,
each visit linking the references of one declaration and so naming (and, the first time,
creating) the instances they refer to: a declaration with the caller's parameter values, or
what an import resolves to with the values of the import's arguments, which may themselves
name instances. Without `wholeFile`, nothing else creates an instance.

So the instances of a finished link are exactly those reachable from the root's declarations
(`walk_reached`):

* each instance after the root's declarations was created by the visit of an earlier one, and a
  reference of that earlier declaration links to it, or to an instance that takes its name as
  the value of a parameter (`Reached.discovered`);
* visiting any instance again links its references to instances already there
  (`Reached.closed`, from `visit_replays`);
* no key has two instances, so references that resolve to one declaration with one set of
  parameter values, by whatever route, share one instance (`Reached.nodup`).

A walk one visit longer is the shorter walk followed by one visit (`walk_succ`); the
creation facts are proved one linker function at a time, each from the previous one's.
-/

namespace ShaderLink

namespace Linker

variable {ctx : LinkContext} {l l' : Linker}

/-! ### Walks, one visit at a time -/

theorem run_visitFrom_succ (fuel k : Nat) (s : Linker) :
    ((visitFrom (fuel + 1) k).run ctx).run s =
      if k < s.instances.size then
        ((visit k).run ctx).run s >>= fun r => ((visitFrom fuel (k + 1)).run ctx).run r.2
      else .ok ((), s) := by
  rw [visitFrom.eq_2, run_bind_ok (x := get) rfl]
  split
  · simp only [ReaderT.run_bind, StateT.run_bind]
  · rfl

/-- Visiting `a + 1` instances from `k` on visits `a` of them, then the one at `k + a` if there
is one: a loop that stopped early stays stopped, since nothing it skips adds instances. -/
theorem run_visitFrom_snoc : ∀ (a k : Nat) (s : Linker),
    ((visitFrom (a + 1) k).run ctx).run s =
      ((visitFrom a k).run ctx).run s >>= fun r =>
        if k + a < r.2.instances.size then ((visit (k + a)).run ctx).run r.2 else .ok r
  | 0, k, s => by
    rw [run_visitFrom_succ]
    show _ = if k < s.instances.size then _ else _
    split
    · cases ((visit k).run ctx).run s <;> rfl
    · rfl
  | a + 1, k, s => by
    rw [run_visitFrom_succ, run_visitFrom_succ]
    split
    · rw [bind_assoc]
      congr 1
      funext r
      rw [run_visitFrom_snoc a (k + 1) r.2, show k + 1 + a = k + (a + 1) by omega]
    · show _ = if k + (a + 1) < s.instances.size then _ else _
      rw [if_neg (by omega)]

theorem walk_eq (ctx : LinkContext) (limit : Nat) :
    walk ctx limit = (·.2) <$> (((seed).run ctx).run initial >>= fun r =>
      ((visitFrom limit 0).run ctx).run r.2) := by
  unfold walk
  simp only [ReaderT.run_bind, StateT.run_bind]
  cases ((seed).run ctx).run initial with
  | error e => rfl
  | ok r =>
    cases ((visitFrom limit 0).run ctx).run r.2 with
    | error e => rfl
    | ok r' => rfl

/-- **A walk one visit longer** visits the next instance, if there is one. -/
theorem walk_succ (ctx : LinkContext) (n : Nat) :
    walk ctx (n + 1) = walk ctx n >>= fun l =>
      if n < l.instances.size then (·.2) <$> ((visit n).run ctx).run l else .ok l := by
  rw [walk_eq, walk_eq]
  cases ((seed).run ctx).run initial with
  | error e => rfl
  | ok r =>
    show (fun x : Unit × Linker => x.2) <$> ((visitFrom (n + 1) 0).run ctx).run r.2 =
      ((fun x : Unit × Linker => x.2) <$> ((visitFrom n 0).run ctx).run r.2) >>= fun l =>
        if n < l.instances.size then (·.2) <$> ((visit n).run ctx).run l else .ok l
    rw [run_visitFrom_snoc, Nat.zero_add]
    cases ((visitFrom n 0).run ctx).run r.2 with
    | error e => rfl
    | ok r' =>
      show (fun x : Unit × Linker => x.2) <$>
          (if n < r'.2.instances.size then ((visit n).run ctx).run r'.2 else .ok r') =
        if n < r'.2.instances.size then
          (fun x : Unit × Linker => x.2) <$> ((visit n).run ctx).run r'.2
        else .ok r'.2
      split <;> rfl

/-- A walk that ends has a shorter walk before it, followed by a visit or by nothing. -/
theorem walk_succ_cases {n : Nat} (h : walk ctx (n + 1) = .ok l') :
    ∃ l, walk ctx n = .ok l ∧
      ((n < l.instances.size ∧ ((visit n).run ctx).run l = .ok ((), l')) ∨
        (l.instances.size ≤ n ∧ l' = l)) := by
  rw [walk_succ] at h
  cases hn : walk ctx n with
  | error e =>
    rw [hn] at h
    cases h
  | ok l =>
    rw [hn] at h
    refine ⟨l, rfl, ?_⟩
    change (if n < l.instances.size then (·.2) <$> ((visit n).run ctx).run l else .ok l) = _ at h
    split at h
    · next hlt =>
      cases hv : ((visit n).run ctx).run l with
      | error e =>
        rw [hv] at h
        cases h
      | ok r =>
        rw [hv] at h
        cases h
        exact Or.inl ⟨hlt, rfl⟩
    · next hge =>
      cases h
      exact Or.inr ⟨Nat.le_of_not_lt hge, rfl⟩

/-- The state of a walk's visits is a chain of steps from each earlier one. -/
theorem walk_steps_of_le {m n : Nat} {lm ln : Linker} (hmn : m ≤ n) (hm : walk ctx m = .ok lm)
    (hn : walk ctx n = .ok ln) : Relation.ReflTransGen (Step ctx.registry) lm ln := by
  induction n generalizing ln with
  | zero =>
    rw [Nat.le_zero.1 hmn] at hm
    rw [hm] at hn
    cases hn
    exact .refl
  | succ n ih =>
    rcases Nat.eq_or_lt_of_le hmn with rfl | hlt
    · rw [hm] at hn
      cases hn
      exact .refl
    · obtain ⟨l, hl, hv | ⟨-, rfl⟩⟩ := walk_succ_cases hn
      · exact (ih (Nat.le_of_lt_succ hlt) hl).trans
          (grows_visit n l () ln (Steps.good (walk_steps hl) (good_seeded ctx)) hv.2)
      · exact ih (Nat.le_of_lt_succ hlt) hl

/-- A walk that ends has ended at every shorter length. -/
theorem walk_ok_of_le {m n : Nat} (hmn : m ≤ n) (hn : walk ctx n = .ok l) :
    ∃ lm, walk ctx m = .ok lm := by
  induction n generalizing l with
  | zero =>
    rw [Nat.le_zero.1 hmn]
    exact ⟨l, hn⟩
  | succ n ih =>
    rcases Nat.eq_or_lt_of_le hmn with rfl | hlt
    · exact ⟨l, hn⟩
    · obtain ⟨l₀, hl₀, -⟩ := walk_succ_cases hn
      exact ih (Nat.le_of_lt_succ hlt) hl₀

/-- A walk whose next instance does not exist has stopped for good. -/
theorem walk_stopped {n : Nat} {ln : Linker} (hn : walk ctx n = .ok ln)
    (hsize : ln.instances.size ≤ n) : ∀ d, walk ctx (n + d) = .ok ln
  | 0 => hn
  | d + 1 => by
    rw [← Nat.add_assoc, walk_succ, walk_stopped hn hsize d]
    show (if n + d < ln.instances.size then _ else _) = _
    rw [if_neg (by omega)]

theorem walk_zero_instances (h : walk ctx 0 = .ok l) : l.instances = (seeded ctx).instances := by
  rw [walk_eq] at h
  cases hs : ((seed).run ctx).run initial with
  | error e =>
    rw [hs] at h
    cases h
  | ok r =>
    rw [hs] at h
    cases h
    unfold seed at hs
    obtain ⟨c, l₁, hread, hs⟩ := run_bind_eq_ok hs
    cases hread
    obtain ⟨root, l₂, hmod, hs⟩ := run_bind_eq_ok hs
    cases hmod
    obtain ⟨u, l₃, hset, hs⟩ := run_bind_eq_ok hs
    cases hset
    obtain ⟨m, l₄, hmap, hs⟩ := run_bind_eq_ok hs
    cases hs
    exact resolveMap_instances hmap

/-- **Every instance of a finished walk was visited**, by the visit of its index, in the state
the walk had reached then. -/
theorem walk_visited {limit n : Nat} (h : walk ctx limit = .ok l) (hn : n < l.instances.size)
    (hlimit : n < limit) :
    ∃ la lb, walk ctx n = .ok la ∧ walk ctx (n + 1) = .ok lb ∧ n < la.instances.size ∧
      ((visit n).run ctx).run la = .ok ((), lb) := by
  obtain ⟨lb, hb⟩ := walk_ok_of_le hlimit h
  obtain ⟨la, ha, hv | ⟨hsize, rfl⟩⟩ := walk_succ_cases hb
  · exact ⟨la, lb, ha, hb, hv⟩
  · -- a walk that stopped before `n` never grows again, so it has no instance at `n`
    have hstop := walk_stopped ha hsize (limit - n)
    rw [Nat.add_sub_cancel' (Nat.le_of_lt hlimit), h] at hstop
    cases hstop
    omega

/-- **Every instance after the root's declarations was created by one visit of the walk.** -/
theorem walk_created {limit j : Nat} (h : walk ctx limit = .ok l)
    (hroot : ctx.rootModule.decls.length ≤ j) (hj : j < l.instances.size) :
    ∃ n < limit, ∃ la lb, walk ctx n = .ok la ∧ walk ctx (n + 1) = .ok lb ∧
      n < la.instances.size ∧ ((visit n).run ctx).run la = .ok ((), lb) ∧
      la.instances.size ≤ j ∧ j < lb.instances.size := by
  induction limit generalizing l with
  | zero =>
    have hsize : l.instances.size = ctx.rootModule.decls.length := by
      simp [walk_zero_instances h, seeded]
    omega
  | succ limit ih =>
    obtain ⟨la, ha, hv | ⟨-, rfl⟩⟩ := walk_succ_cases h
    · by_cases hlt : j < la.instances.size
      · obtain ⟨n, hn, rest⟩ := ih ha hlt
        exact ⟨n, Nat.lt_succ_of_lt hn, rest⟩
      · exact ⟨limit, Nat.lt_succ_self _, la, l, ha, h, hv.1, hv.2, Nat.le_of_not_lt hlt, hj⟩
    · obtain ⟨n, hn, rest⟩ := ih ha hj
      exact ⟨n, Nat.lt_succ_of_lt hn, rest⟩

/-! ### What linking creates -/

section Created

variable {j : Nat}

theorem run_map_eq_ok {α β : Type} {x : LinkM α} {f : α → β} {b : β}
    (h : ((f <$> x).run ctx).run l = .ok (b, l')) :
    ∃ a, (x.run ctx).run l = .ok (a, l') ∧ b = f a := by
  rw [map_eq_pure_bind] at h
  obtain ⟨a, l₁, h₁, h⟩ := run_bind_eq_ok h
  cases h
  exact ⟨a, h₁, rfl⟩

/-- What every run of a `for` loop's body keeps, between the loop's value and the state, holds
after the loop. -/
theorem forIn_keeps {γ β : Type} (I : β → Linker → Prop) (xs : List γ)
    (f : γ → β → LinkM (ForInStep β))
    (hf : ∀ c ∈ xs, ∀ b s r s', I b s → ((f c b).run ctx).run s = .ok (r, s') → I r.value s') :
    ∀ init s b s', I init s → ((forIn xs init f).run ctx).run s = .ok (b, s') → I b s' := by
  induction xs with
  | nil =>
    intro init s b s' hI h
    cases h
    exact hI
  | cons c xs ih =>
    intro init s b s' hI h
    rw [List.forIn_cons] at h
    obtain ⟨r, s₁, h₁, h⟩ := run_bind_eq_ok h
    have hI₁ := hf c List.mem_cons_self init s r s₁ hI h₁
    cases r with
    | done b₁ =>
      cases h
      exact hI₁
    | yield b₁ => exact ih (fun c hc => hf c (List.mem_cons_of_mem _ hc)) b₁ s₁ b s' hI₁ h

/-- An instance that a `for` loop adds is added by one run of its body. -/
theorem forIn_adds {γ β : Type} (xs : List γ) (f : γ → β → LinkM (ForInStep β))
    (hf : ∀ c ∈ xs, ∀ b, Grows ctx (f c b)) :
    ∀ init s b s', Good ctx.registry s → ((forIn xs init f).run ctx).run s = .ok (b, s') →
      s.instances.size ≤ j → j < s'.instances.size →
      ∃ c ∈ xs, ∃ b₀ s₁ r s₂, Relation.ReflTransGen (Step ctx.registry) s s₁ ∧
        ((f c b₀).run ctx).run s₁ = .ok (r, s₂) ∧ s₁.instances.size ≤ j ∧
        j < s₂.instances.size ∧ Relation.ReflTransGen (Step ctx.registry) s₂ s' := by
  induction xs with
  | nil =>
    intro init s b s' _ h hj hj'
    cases h
    omega
  | cons c xs ih =>
    intro init s b s' hg h hj hj'
    rw [List.forIn_cons] at h
    obtain ⟨r, s₁, h₁, h⟩ := run_bind_eq_ok h
    have hs₁ := hf c List.mem_cons_self init s r s₁ hg h₁
    have hxs : ∀ c ∈ xs, ∀ b, Grows ctx (f c b) := fun c hc => hf c (List.mem_cons_of_mem _ hc)
    cases r with
    | done b₁ =>
      -- the loop stops after this element, which added the instance
      cases h
      exact ⟨c, List.mem_cons_self, init, s, _, s', .refl, h₁, hj, hj', .refl⟩
    | yield b₁ =>
      by_cases hlt : j < s₁.instances.size
      · exact ⟨c, List.mem_cons_self, init, s, _, s₁, .refl, h₁, hj, hlt,
          grows_forIn xs f hxs b₁ s₁ b s' (Steps.good hs₁ hg) h⟩
      · obtain ⟨c', hc', b₀, s₂, r', s₃, h₁', h₂', h₃', h₄', h₅'⟩ :=
          ih hxs b₁ s₁ b s' (Steps.good hs₁ hg) h (Nat.le_of_not_lt hlt) hj'
        exact ⟨c', List.mem_cons_of_mem _ hc', b₀, s₂, r', s₃, hs₁.trans h₁', h₂', h₃', h₄', h₅'⟩

/-- `ensureInstance` creates at most the instance of its key. -/
theorem added_of_ensureInstance {key : InstanceKey} {name : String} {reached : Option ModulePath}
    (h : ((ensureInstance key).run ctx).run l = .ok ((name, reached), l'))
    (hj : l.instances.size ≤ j) (hj' : j < l'.instances.size) :
    keyName l' j = some (key, name) := by
  cases hf : l.instances.find? (·.key == key) with
  | some i =>
    rw [ensureInstance_of_find?_some hf] at h
    cases h
    omega
  | none =>
    obtain ⟨reached', l₁, he, hi, -, -⟩ := @ensureInstance_of_find?_none ctx l _ hf
    rw [he] at h
    cases h
    rw [hi, Array.size_push] at hj'
    have hjs : j = l.instances.size := by omega
    subst hjs
    simp [keyName, hi]

/-- An instance that a visit creates is created while linking one reference of the visited
declaration. -/
theorem visit_adds {n : Nat} {la lb : Linker} (hg : Good ctx.registry la)
    (hn : n < la.instances.size) (h : ((visit n).run ctx).run la = .ok ((), lb))
    (hj : la.instances.size ≤ j) (hj' : j < lb.instances.size) :
    ∃ p i d, la.instances[n].key.target = .decl p i ∧
      ((ctx.registry.module? p).getD default).decl? i = some d ∧
      ∃ r ∈ ((ctx.registry.module? p).getD default).references d, ∃ s₁ res s₂,
        Relation.ReflTransGen (Step ctx.registry) la s₁ ∧
        ((linkReference p la.instances[n].key.args r).run ctx).run s₁ = .ok (res, s₂) ∧
        s₁.instances.size ≤ j ∧ j < s₂.instances.size ∧
        Relation.ReflTransGen (Step ctx.registry) s₂ lb := by
  rw [visit_of_getElem? (Array.getElem?_eq_getElem hn)] at h
  unfold visitInstance at h
  split at h
  · cases h
    omega
  · next p i htarget =>
    obtain ⟨module, l₁, hm, h⟩ := run_bind_eq_ok h
    cases hm
    split at h
    · next d hd =>
      refine ⟨p, i, d, htarget, hd, ?_⟩
      -- the references are linked in a loop; recording the renames then adds nothing
      split at h <;>
      · obtain ⟨rs, l₂, hloop, h⟩ := run_bind_eq_ok h
        cases h
        obtain ⟨r, hr, b₀, s₁, res', s₂, hs₁, hbody, hj₁, hj₂, hs₂⟩ :=
          forIn_adds _ _ (fun r _ b => grows_bind (replays_linkReference _ _ _).1 fun linked _ => by
            split
            · split <;> exact grows_pure _
            · exact grows_pure _) _ la rs l₂ hg hloop hj (by simpa using hj')
        obtain ⟨linked, s₃, hlink, hrest⟩ := run_bind_eq_ok hbody
        have hs₃ : s₂ = s₃ := by
          split at hrest
          · split at hrest <;> cases hrest <;> rfl
          · cases hrest
            rfl
        subst hs₃
        refine ⟨r, hr, s₁, linked, s₂, hs₁, hlink, hj₁, hj₂, hs₂.trans (.single (.rename _ _ _))⟩
    · cases h
      omega

section NoWholeFile

variable (hw : ctx.options.wholeFile = false)
include hw

/-- Without `wholeFile`, naming an instance only looks it up or creates it. -/
theorem instanceName_ensure {t : ExportTarget} {args : List (String × String)} {name : String}
    (h : ((instanceName t args).run ctx).run l = .ok (name, l')) :
    ∃ reached, ((ensureInstance ⟨t, args⟩).run ctx).run l = .ok ((name, reached), l') := by
  unfold instanceName at h
  obtain ⟨⟨name', reached⟩, l₁, he, h⟩ := run_bind_eq_ok h
  dsimp only at h
  split at h
  · obtain ⟨c, l₂, hread, h⟩ := run_bind_eq_ok h
    cases hread
    split at h
    · next hwt =>
      rw [hw] at hwt
      cases hwt
    · cases h
      exact ⟨_, he⟩
  · cases h
    exact ⟨_, he⟩

theorem added_of_instanceName {t : ExportTarget} {args : List (String × String)} {name : String}
    (h : ((instanceName t args).run ctx).run l = .ok (name, l'))
    (hj : l.instances.size ≤ j) (hj' : j < l'.instances.size) :
    keyName l' j = some (⟨t, args⟩, name) := by
  obtain ⟨reached, he⟩ := instanceName_ensure hw h
  exact added_of_ensureInstance he hj hj'

/-- An instance that an import argument's value creates is named by that value. -/
theorem added_of_argValue {importer : ModulePath} {callerArgs : List (String × String)}
    {arg v : String} (h : ((argValue importer callerArgs arg).run ctx).run l = .ok (v, l'))
    (hj : l.instances.size ≤ j) (hj' : j < l'.instances.size) :
    (keyName l' j).map (·.2) = some v := by
  unfold argValue at h
  split at h
  · cases h
    omega
  · obtain ⟨m, l₁, hm, h⟩ := run_bind_eq_ok h
    cases hm
    split at h
    · rw [added_of_instanceName hw h hj hj']
      rfl
    · obtain ⟨rm, l₂, hrm, h⟩ := run_bind_eq_ok h
      have hsize := resolveMap_instances hrm
      split at h
      · rw [added_of_instanceName hw h (hsize ▸ hj) hj']
        rfl
      · cases h
        rw [hsize] at hj'
        omega

/-- The instances that the arguments of a new instance create are named by their values. -/
theorem added_of_instanceArgs {importer : ModulePath} {callerArgs : List (String × String)}
    {target : ExportTarget} {importArgs : Option (List String)} {span : Span}
    {ia : List (String × String)} (hg : Good ctx.registry l)
    (h : ((instanceArgs importer callerArgs target importArgs span).run ctx).run l = .ok (ia, l'))
    (hj : l.instances.size ≤ j) (hj' : j < l'.instances.size) :
    ∃ v ∈ ia.map (·.2), (keyName l' j).map (·.2) = some v := by
  unfold instanceArgs at h
  obtain ⟨c, l₁, hread, h⟩ := run_bind_eq_ok h
  cases hread
  split at h
  obtain ⟨args, l₂, hloop, h⟩ := run_bind_eq_ok h
  cases h
  -- the loop keeps: every instance it added is named by the value of an entry made so far
  let Named : Array (String × String) → Linker → Prop := fun args s =>
    Good ctx.registry s ∧ Relation.ReflTransGen (Step ctx.registry) l s ∧
      ∀ j, l.instances.size ≤ j → j < s.instances.size →
        ∃ v ∈ args.toList.map (·.2), (keyName s j).map (·.2) = some v
  refine (forIn_keeps Named _ _ ?_ #[] l args _ ⟨hg, .refl, fun j hj hj' => by omega⟩ hloop).2.2
    j hj hj'
  intro c _ args s r s' ⟨hgs, hsteps, hnamed⟩ hbody
  obtain ⟨⟨param, default⟩, position⟩ := c
  -- an entry pushed onto the arguments keeps every value named so far
  have keep : ∀ (e : String × String) s', Relation.ReflTransGen (Step ctx.registry) s s' →
      s'.instances.size = s.instances.size → Named (args.push e) s' := by
    intro e s' hs' hsize
    refine ⟨Steps.good hs' hgs, hsteps.trans hs', fun j hj hj' => ?_⟩
    obtain ⟨v, hv, hname⟩ := hnamed j hj (by omega)
    refine ⟨v, by simp only [Array.toList_push, List.map_append, List.mem_append]; exact Or.inl hv, ?_⟩
    rw [Steps.keyName_of_lt hs' (by omega), hname]
  dsimp only at hbody
  split at hbody
  · -- the value of an import argument, which may create its instance
    obtain ⟨value, s₁, hval, hbody⟩ := run_bind_eq_ok hbody
    obtain ⟨v, hv, rfl⟩ := run_map_eq_ok hval
    have hs₁ := (@replays_argValue ctx importer callerArgs _).1 s v s₁ hgs hv
    cases hbody
    refine ⟨Steps.good hs₁ hgs, hsteps.trans hs₁, fun j hj hj' => ?_⟩
    by_cases hlt : j < s.instances.size
    · obtain ⟨v', hv', hname⟩ := hnamed j hj hlt
      refine ⟨v', by simp only [ForInStep.value_yield, Array.toList_push, List.map_append, List.mem_append]; exact Or.inl hv', ?_⟩
      rw [Steps.keyName_of_lt hs₁ hlt, hname]
    · exact ⟨v, by simp, added_of_argValue hw hv (Nat.le_of_not_lt hlt) hj'⟩
  · -- a parameter of the link or a default: nothing is created
    obtain ⟨value, s₁, hval, hbody⟩ := run_bind_eq_ok hbody
    cases hval
    split at hbody
    · cases hbody
      exact keep _ _ .refl rfl
    · split at hbody
      · obtain ⟨m, s₂, hm, hbody⟩ := run_bind_eq_ok hbody
        cases hm
        obtain ⟨u, s₃, hwarn, hbody⟩ := run_bind_eq_ok hbody
        cases hwarn
        cases hbody
        exact keep _ _ (grows_warn _ s () _ hgs rfl) rfl
      · cases hbody
        exact ⟨hgs, hsteps, hnamed⟩

/-- **What linking a reference creates.** Linking a reference creates instances only when it
links to an instance; each one it creates is that instance, or an instance that one of its
arguments names. -/
theorem added_of_linkReference {p : ModulePath} {args : List (String × String)} {r : Reference}
    {res : Option String} (hg : Good ctx.registry l)
    (h : ((linkReference p args r).run ctx).run l = .ok (res, l'))
    (hj : l.instances.size ≤ j) (hj' : j < l'.instances.size) :
    ∃ name key, res = some name ∧ (∃ k, keyName l' k = some (key, name)) ∧
      (keyName l' j = some (key, name) ∨
        ∃ v ∈ key.args.map (·.2), (keyName l' j).map (·.2) = some v) := by
  unfold linkReference at h
  obtain ⟨module, l₁, hm, h⟩ := run_bind_eq_ok h
  cases hm
  dsimp only at h
  split at h
  · -- a bound reference links, if at all, to an instance of a declaration of its module
    split at h
    · cases h
      omega
    · split at h
      · cases h
        omega
      · obtain ⟨name, l₂, hname, h⟩ := run_bind_eq_ok h
        cases h
        have hk := added_of_instanceName hw hname hj hj'
        exact ⟨name, _, rfl, ⟨j, hk⟩, Or.inl hk⟩
  · -- an unbound reference is left alone or resolved through the imports
    split at h <;> [split at h; skip]
    · cases h
      omega
    all_goals
      obtain ⟨rm, l₂, hrm, h⟩ := run_bind_eq_ok h
      have hsize := resolveMap_instances hrm
      have hg₂ := Steps.good ((replays_resolveMap _).1 l rm l₂ hg hrm) hg
      split at h
      · next t _ _ hr =>
        obtain ⟨ia, l₃, hia, h⟩ := run_bind_eq_ok h
        obtain ⟨n, l₄, hn, h⟩ := run_bind_eq_ok h
        cases h
        have hexists := Returns.found_exists ⟨l, l₂, hg, hrm⟩ hr
        have hs₃ := (@replays_instanceArgs ctx p args t _ r.span).1 l₂ ia l₃ hg₂ hia
        have hs₄ := (replays_instanceName ia hexists).1 l₃ n _ (Steps.good hs₃ hg₂) hn
        refine ⟨n, ⟨t, ia⟩, rfl, keyName_of_instanceName hexists (Steps.good hs₃ hg₂) hn, ?_⟩
        by_cases hlt : j < l₃.instances.size
        · obtain ⟨v, hv, hname⟩ := added_of_instanceArgs hw hg₂ hia (hsize ▸ hj) hlt
          exact Or.inr ⟨v, hv, by rw [Steps.keyName_of_lt hs₄ hlt, hname]⟩
        · exact Or.inl (added_of_instanceName hw hn (Nat.le_of_not_lt hlt) hj')
      · split at h
        · obtain ⟨u, l₃, hwarn, h⟩ := run_bind_eq_ok h
          cases hwarn
          cases h
          rw [hsize] at hj'
          omega
        · cases h
          rw [hsize] at hj'
          omega
      · cases h

end NoWholeFile

end Created

/-! ### Reached instances -/

/-- The instance at `j` was created by the `n`-th visit of the walk. -/
def CreatedBy (ctx : LinkContext) (n j : Nat) : Prop :=
  ∃ la lb, walk ctx n = .ok la ∧ walk ctx (n + 1) = .ok lb ∧
    la.instances.size ≤ j ∧ j < lb.instances.size

/-- In the state `l`, a reference of the declaration of the instance at `n` links to the
instance at `k`. -/
def LinksTo (ctx : LinkContext) (l : Linker) (n k : Nat) : Prop :=
  ∃ inst p i d, l.instances[n]? = some inst ∧ inst.key.target = .decl p i ∧
    ((ctx.registry.module? p).getD default).decl? i = some d ∧
    ∃ r ∈ ((ctx.registry.module? p).getD default).references d, ∃ linked l',
      l.instances[k]? = some linked ∧
      ((linkReference p inst.key.args r).run ctx).run l = .ok (some linked.name, l')

/-- The instance at `j` is the one at `k`, or the value of one of its parameters. -/
def SelfOrArgument (l : Linker) (k j : Nat) : Prop :=
  j = k ∨ ∃ a b, l.instances[j]? = some a ∧ l.instances[k]? = some b ∧
    a.name ∈ b.key.args.map (·.2)

/-- How the instances of a finished link came about. -/
structure Reached (ctx : LinkContext) (l : Linker) : Prop where
  /-- No two instances share a key. -/
  nodup : (keys l).Nodup
  /-- The instances taken as part of the root are exactly the first ones: the root's
  declarations, as written. -/
  root : ∀ j key name, keyName l j = some (key, name) →
    (isRootInstance ctx.root key = true ↔ j < ctx.rootModule.decls.length)
  /-- Every other instance was created by the visit of an earlier one, one of whose references
  links to it or to an instance that takes it as the value of a parameter. -/
  discovered : ∀ j, ctx.rootModule.decls.length ≤ j → j < l.instances.size →
    ∃ n < j, CreatedBy ctx n j ∧ ∃ k, LinksTo ctx l n k ∧ SelfOrArgument l k j
  /-- Visiting any instance again finds every instance it links to already there. -/
  closed : ∀ n < l.instances.size,
    ∃ l', ((visit n).run ctx).run l = .ok ((), l') ∧ keys l' = keys l

/-- The instances taken as part of the root are the seeded ones: a declaration of the root
without arguments has its instance among the root's declarations. -/
theorem isRootInstance_iff (hinv : NameInv ctx l) (hg : Good ctx.registry l) {j : Nat}
    {key : InstanceKey} {name : String} (hk : keyName l j = some (key, name)) :
    isRootInstance ctx.root key = true ↔ j < ctx.rootModule.decls.length := by
  constructor
  · intro hroot
    have hmem : key ∈ keys l := List.mem_of_getElem? (by rw [getElem?_keys, hk]; rfl)
    obtain ⟨target, args⟩ := key
    cases target with
    | generator m g => simp [isRootInstance] at hroot
    | decl m i =>
      simp only [isRootInstance, Bool.and_eq_true, List.isEmpty_iff, beq_iff_eq] at hroot
      obtain ⟨rfl, rfl⟩ := hroot
      -- the declaration exists, so it is the root's declaration at some position `q`
      obtain ⟨d, hd⟩ := hg.targets _ hmem
      obtain ⟨q, hq, hdq⟩ := List.mem_iff_getElem.1 hd
      have hseed := hinv.seeded q hq
      simp only [LinkContext.rootModule] at hseed
      rw [hdq] at hseed
      rw [index_eq_of_keyName hinv.nodup hk hseed]
      exact hq
  · intro hj
    rw [hinv.seeded j hj] at hk
    cases hk
    simp [isRootInstance]

/-- **Which instances a finished link reaches.** Without `wholeFile`, a walk that visited all
its instances has reached the root's declarations and exactly the instances that their
references lead to, one instance for each key. -/
theorem walk_reached (hw : ctx.options.wholeFile = false) {limit : Nat}
    (h : walk ctx limit = .ok l) (hlimit : l.instances.size ≤ limit) : Reached ctx l := by
  have hinv := nameInv_of_walk h
  have hg := Steps.good (walk_steps h) (good_seeded ctx)
  refine ⟨hinv.nodup, fun j key name hk => isRootInstance_iff hinv hg hk, ?_, ?_⟩
  · intro j hroot hj
    obtain ⟨n, hn, la, lb, ha, hb, hna, hv, hja, hjb⟩ := walk_created h hroot hj
    have hga := Steps.good (walk_steps ha) (good_seeded ctx)
    obtain ⟨p, i, d, htarget, hd, r, hr, s₁, res, s₂, hs₁, hlink, hj₁, hj₂, hs₂⟩ :=
      visit_adds hga hna hv hja hjb
    have hg₁ := Steps.good hs₁ hga
    obtain ⟨name, key, rfl, ⟨k, hk⟩, hself⟩ := added_of_linkReference hw hg₁ hlink hj₁ hj₂
    -- the rest of the walk keeps what this link created, so the link replays in `l`
    have h₂l := hs₂.trans (walk_steps_of_le hn hb h)
    have keep : ∀ q, q < s₂.instances.size → keyName l q = keyName s₂ q :=
      fun q hq => Steps.keyName_of_lt h₂l hq
    obtain ⟨l', hlink', -⟩ :=
      (replays_linkReference p _ r).2 s₁ _ s₂ l hg₁ hlink ⟨keep, hinv.nodup, hg.cache⟩
    have hkl := (keep k (lt_size_of_keyName hk)).trans hk
    obtain ⟨linked, hlinked, rfl, rfl⟩ := keyName_eq_some hkl
    refine ⟨n, by omega, ⟨la, lb, ha, hb, hja, hjb⟩, k, ?_, ?_⟩
    · -- the visited instance is still at `n`, under the key it had
      have hnl : keyName l n = keyName la n :=
        Steps.keyName_of_lt (walk_steps_of_le (Nat.le_of_lt hn) ha h) hna
      rw [keyName, keyName, Array.getElem?_eq_getElem hna] at hnl
      obtain ⟨inst, hinst, hkey⟩ := Option.map_eq_some_iff.1 hnl
      obtain ⟨hik, -⟩ := Prod.mk.inj hkey
      rw [← hik] at htarget hlink'
      exact ⟨inst, p, i, d, hinst, htarget, hd, r, hr, linked, l', hlinked, hlink'⟩
    · have hjl := keep j hj₂
      rcases hself with hjk | ⟨v, hv, hname⟩
      · exact Or.inl (index_eq_of_keyName hinv.nodup (hjl.trans hjk) hkl)
      · rw [← hjl] at hname
        obtain ⟨a, ha', rfl⟩ := Option.map_eq_some_iff.1 hname
        obtain ⟨a', ha'', rfl⟩ := Option.map_eq_some_iff.1 ha'
        exact Or.inr ⟨a', linked, ha'', hlinked, hv⟩
  · intro n hn
    obtain ⟨la, lb, ha, hb, hna, hv⟩ := walk_visited h hn (by omega)
    have hga := Steps.good (walk_steps ha) (good_seeded ctx)
    have he : Extends ctx.registry lb l :=
      ⟨fun q hq => Steps.keyName_of_lt (walk_steps_of_le (by omega) hb h) hq, hinv.nodup, hg.cache⟩
    obtain ⟨l', hv', hu⟩ := visit_replays hga hna hv he
    exact ⟨l', hv', hu.keys_eq⟩

end Linker

end ShaderLink
