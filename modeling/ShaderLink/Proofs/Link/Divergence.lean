import ShaderLink.Proofs.Link.Steps

/-!
# A link that never settles

The instances of a link are found by visiting them one after another until no new one
appears. A generic declaration that calls itself through an import of its own module, with an
argument that names another of that module's declarations, makes every visit create new
instances, so the visiting never ends and the link stops at its budget instead.

In `selfImport`, module `a` exports `f`, generic in `T`, whose body calls `g`, the import
`a/f(w)` of `f` itself with `a`'s declaration `w` as argument; `main` calls `f` with its own
declaration `m` as argument. Visiting `f` with `T` bound to a name `x` links the argument `w`
to an instance of `w` with `T` bound to `x`, new since `x` is, under a fresh name `x'`, and
then `g` to an instance of `f` with `T` bound to `x'`, new again. The instances are

  `m`, `main`, `f[T = m]`, `w[T = m]`, `f[T = x₁]`, `w[T = x₁]`, `f[T = x₂]`, ...

with `x₁, x₂, ...` pairwise distinct (`Unfolded`). Every visit keeps that shape and leaves an
instance behind it (`visit_reached`), so however large the budget, the link of `main` stops
with the stalled fault (`link_stalls_on_selfImport`).
-/

namespace ShaderLink

/-- Module `a` exports `f`, generic in `T`, which calls itself through the import `g` with
`a`'s `w` as argument; module `main` calls `f` with its own `m` as argument. -/
def selfImport : Registry :=
  (((Registry.empty ⟨⟨[]⟩, defaultBudget⟩).addSource "a.wgsl"
    "import a/f(w) as g;\n#export(T)\nfn f() { g(); }\nfn w() {}\n").1.addSource "main.wgsl"
    "import a/f(m);\nfn m() {}\nfn main() { f(); }\n").1

namespace SelfImport

open Linker

/-- The link of `main`: no parameters, only the declarations it needs. -/
def linkCtx : LinkContext := ⟨selfImport, ⟨["main"]⟩, ⟨[], false⟩⟩

/-- Module `a`. -/
def modA : ParsedModule := (linkCtx.registry.module? ⟨["a"]⟩).getD default

/-- Module `main`, the root. -/
def modMain : ParsedModule := (linkCtx.registry.module? linkCtx.root).getD default

/-- The references of a declaration, each as its path and the declaration it is bound to. -/
def refsAt (m : ParsedModule) (i : Nat) : Option (List (List String × Option Nat)) :=
  (m.decl? i).map fun d => (m.references d).map fun r =>
    (r.path, (m.scopes.idents[r.ident]?).bind (·.binding))

/-! ### What the link reads from the two modules -/

set_option maxRecDepth 10000 in
/-- `main` is found under its name; its declarations are `m` (index 1) and `main` (index 2),
of which only `main` refers to anything: to `f`, through the import `a/f(m)`. -/
theorem main_facts :
    ModulePath.parse "main" = linkCtx.root ∧ (linkCtx.registry.module? linkCtx.root).isSome ∧
      modMain.decls.map (·.1) = [1, 2] ∧ refsAt modMain 1 = some [] ∧
      refsAt modMain 2 = some [(["f"], none)] ∧ (modMain.findDecl? "m").map (·.1) = some 1 ∧
      ((buildResolveMap linkCtx.registry modMain).toOption.map fun x => x.1.resolve ["f"]) =
        some (.found (.decl ⟨["a"]⟩ 2) ["a", "f"] (some ["m"])) := by
  decide +kernel

/-- In `a`, `f` (index 2) has the parameter `T` and refers to `g` only, which resolves to `f`
itself with `w` (index 4) as argument; `w` refers to nothing. -/
theorem a_facts :
    (linkCtx.registry.module? ⟨["a"]⟩).isSome ∧ (modA.decl? 2).map (·.params) = some ["T"] ∧
      refsAt modA 2 = some [(["g"], none)] ∧ refsAt modA 4 = some [] ∧
      (modA.findDecl? "w").map (·.1) = some 4 ∧
      ((buildResolveMap linkCtx.registry modA).toOption.map fun x => x.1.resolve ["g"]) =
        some (.found (.decl ⟨["a"]⟩ 2) ["a", "f"] (some ["w"])) := by
  decide +kernel

theorem module?_eq_getD {p : ModulePath} (h : (linkCtx.registry.module? p).isSome) :
    linkCtx.registry.module? p = some ((linkCtx.registry.module? p).getD default) := by
  cases hm : linkCtx.registry.module? p with
  | none => simp [hm] at h
  | some m => rfl

theorem decl_of_refsAt_nil {m : ParsedModule} {i : Nat} (h : refsAt m i = some []) :
    ∃ d, m.decl? i = some d ∧ m.references d = [] := by
  unfold refsAt at h
  cases hd : m.decl? i with
  | none => simp [hd] at h
  | some d => exact ⟨d, rfl, by simpa [hd] using h⟩

theorem decl_of_refsAt_single {m : ParsedModule} {i : Nat} {path : List String}
    {b : Option Nat} (h : refsAt m i = some [(path, b)]) :
    ∃ d r, m.decl? i = some d ∧ m.references d = [r] ∧ r.path = path ∧
      (m.scopes.idents[r.ident]?).bind (·.binding) = b := by
  unfold refsAt at h
  cases hd : m.decl? i with
  | none => simp [hd] at h
  | some d =>
    simp only [hd, Option.map_some, Option.some.injEq, List.map_eq_singleton_iff,
      Prod.mk.injEq] at h
    obtain ⟨r, hr, hpath, hb⟩ := h
    exact ⟨d, r, rfl, hr, hpath, hb⟩

/-! ### The instances the link creates -/

/-- The root's declarations `m` and `main`, as the link enters them. -/
def rootKeys : List InstanceKey := [⟨.decl ⟨["main"]⟩ 1, []⟩, ⟨.decl ⟨["main"]⟩ 2, []⟩]

/-- `f` with `T` bound to `x`. -/
def fKey (x : String) : InstanceKey := ⟨.decl ⟨["a"]⟩ 2, [("T", x)]⟩

/-- `w` with `T` bound to `x`. -/
def wKey (x : String) : InstanceKey := ⟨.decl ⟨["a"]⟩ 4, [("T", x)]⟩

/-- `f` and then `w` for each name in turn. -/
def chainKeys (xs : List String) : List InstanceKey := xs.flatMap fun x => [fKey x, wKey x]

variable {xs ys : List String} {x y : String}

@[simp] theorem fKey_inj : fKey x = fKey y ↔ x = y := by simp [fKey]

@[simp] theorem wKey_inj : wKey x = wKey y ↔ x = y := by simp [wKey]

@[simp] theorem fKey_ne_wKey : fKey x ≠ wKey y := by simp [fKey, wKey]

@[simp] theorem wKey_ne_fKey : wKey x ≠ fKey y := by simp [fKey, wKey]

@[simp] theorem fKey_not_mem_rootKeys : fKey x ∉ rootKeys := by simp [fKey, rootKeys]

@[simp] theorem wKey_not_mem_rootKeys : wKey x ∉ rootKeys := by simp [wKey, rootKeys]

@[simp] theorem length_chainKeys : (chainKeys xs).length = 2 * xs.length := by
  induction xs with
  | nil => rfl
  | cons x xs ih =>
    simp only [chainKeys, List.flatMap_cons, List.length_append, List.length_cons,
      List.length_nil] at ih ⊢
    rw [ih]
    omega

theorem chainKeys_append_singleton : chainKeys (xs ++ [x]) = chainKeys xs ++ [fKey x, wKey x] := by
  simp [chainKeys]

@[simp] theorem fKey_mem_chainKeys : fKey y ∈ chainKeys xs ↔ y ∈ xs := by
  simp [chainKeys]

@[simp] theorem wKey_mem_chainKeys : wKey y ∈ chainKeys xs ↔ y ∈ xs := by
  simp [chainKeys]

/-- After the root's keys and the chain of `xs`, the keys that follow. -/
theorem getElem?_after_chain (xs : List String) (rest : List InstanceKey) (i : Nat) :
    (rootKeys ++ (chainKeys xs ++ rest))[2 + 2 * xs.length + i]? = rest[i]? := by
  have hlen : (rootKeys ++ chainKeys xs).length = 2 + 2 * xs.length := by
    simp [rootKeys]
    omega
  rw [← List.append_assoc, List.getElem?_append_right (by omega), hlen, Nat.add_sub_cancel_left]

theorem not_mem_of_nodup_append_singleton (h : (xs ++ [x]).Nodup) : x ∉ xs := by
  rw [← List.concat_eq_append, List.nodup_concat] at h
  exact h.1

/-- The linker once the root's declarations are entered and before `main` is linked. -/
structure Seeded (l : Linker) : Prop where
  keys_eq : keys l = rootKeys
  names : NamesUsed l
  cached : CacheOK linkCtx.registry l

/-- The linker once `main`'s call of `f` is linked: the root's declarations, then `f` and `w`
for each name of `xs` in turn, then `f` for `x`, the names bound to `T` pairwise distinct
and reserved. -/
structure Unfolded (xs : List String) (x : String) (l : Linker) : Prop where
  keys_eq : keys l = rootKeys ++ chainKeys xs ++ [fKey x]
  nodup : (xs ++ [x]).Nodup
  reserved : ∀ y ∈ xs ++ [x], y ∈ l.usedNames
  cached : CacheOK linkCtx.registry l

theorem Unfolded.size (h : Unfolded xs x l) : l.instances.size = 3 + 2 * xs.length := by
  rw [← length_keys, h.keys_eq]
  simp [rootKeys]
  omega

/-- The states before each visit: the root's declarations alone before visits `0` and `1`;
after that an unfolded chain whose last `f` (even visits) or last `w` (odd visits) is due. -/
def Reached (n : Nat) (l : Linker) : Prop :=
  (n < 2 ∧ Seeded l) ∨
    ∃ xs x, Unfolded xs x l ∧ (n = 2 + 2 * xs.length ∨ ∃ ys y, xs = ys ++ [y] ∧ n = 3 + 2 * ys.length)

/-! ### One visit -/

/-- Visiting a declaration that refers to nothing changes no key, name or cached map. -/
theorem visit_of_no_references_keeps {n : Nat} {k : InstanceKey} {p : ModulePath} {i : Nat}
    (hk : (keys l)[n]? = some k) (ht : k.target = .decl p i)
    (h : refsAt ((linkCtx.registry.module? p).getD default) i = some []) :
    ∃ l', ((visit n).run linkCtx).run l = .ok ((), l') ∧ keys l' = keys l ∧
      l'.usedNames = l.usedNames ∧ l'.resolveMaps = l.resolveMaps ∧ (NamesUsed l → NamesUsed l') := by
  obtain ⟨inst, hinst, rfl⟩ := instance_of_keys hk
  obtain ⟨d, hd, hrefs⟩ := decl_of_refsAt_nil h
  obtain ⟨rs, hv⟩ := visit_of_no_references hinst ht hd hrefs
  exact ⟨_, hv, keys_modify_renames l n rs, rfl, rfl, namesUsed_modify_renames⟩

/-- Visit `0`: `m` refers to nothing. -/
theorem visit_m (h : Seeded l) : ∃ l', ((visit 0).run linkCtx).run l = .ok ((), l') ∧ Seeded l' := by
  have hk : (keys l)[0]? = some ⟨.decl ⟨["main"]⟩ 1, []⟩ := by
    rw [h.keys_eq]
    rfl
  obtain ⟨l', hv, hkeys, -, hmaps, hnames⟩ := visit_of_no_references_keeps hk rfl main_facts.2.2.2.1
  exact ⟨l', hv, ⟨hkeys.trans h.keys_eq, hnames h.names, h.cached.of_resolveMaps hmaps⟩⟩

/-- A visit whose one reference goes through an import of `f` with one argument, and whose
argument has the value `v` with no instance of `f` for `v` yet: the visit creates that
instance and changes nothing else but renames. -/
theorem visit_through_import_of_f {n : Nat} {inst : Instance} {p : ModulePath} {i : Nat}
    {d : Declaration} {r : Reference} {name arg v : String} {rm : ResolveMap}
    {ep : List String} {l₁ l₂ : Linker} (hinst : l.instances[n]? = some inst)
    (ht : inst.key.target = .decl p i)
    (hd : ((linkCtx.registry.module? p).getD default).decl? i = some d)
    (hrefs : ((linkCtx.registry.module? p).getD default).references d = [r])
    (hb : ((((linkCtx.registry.module? p).getD default).scopes.idents[r.ident]?).bind
      (·.binding)) = none)
    (hpath : r.path = [name]) (hargs : inst.key.args.any (·.1 == name) = false)
    (hr : ((resolveMap p).run linkCtx).run l = .ok (rm, l₁))
    (hres : rm.resolve [name] = .found (.decl ⟨["a"]⟩ 2) ep (some [arg]))
    (harg : ((argValue p inst.key.args arg).run linkCtx).run l₁ = .ok (v, l₂))
    (hnew : fKey v ∉ keys l₂) :
    ∃ l', ((visit n).run linkCtx).run l = .ok ((), l') ∧ keys l' = keys l₂ ++ [fKey v] ∧
      (∀ y ∈ l₂.usedNames, y ∈ l'.usedNames) ∧ l'.resolveMaps = l₂.resolveMaps := by
  obtain ⟨hmA, hparams, -⟩ := a_facts
  obtain ⟨dF, hdF, hpF⟩ := Option.map_eq_some_iff.1 hparams
  obtain ⟨nf, l₃, hname, -, hkeys, -, hu, hm⟩ :=
    instanceName_of_new (rfl : linkCtx.options.wholeFile = false) hnew
  have hlink := linkReference_of_import hb hpath hargs hr (by rw [hpath]; exact hres)
    (instanceArgs_of_single_param (module?_eq_getD hmA) hdF hpF harg) hname
  obtain ⟨rs, hvisit⟩ := visit_of_single_reference hinst ht hd hrefs hlink
  exact ⟨_, hvisit, by rw [keys_modify_renames, hkeys], hu, hm⟩

/-- Visit `1`: `main` calls `f` through the import `a/f(m)`, which links `m` to the root's own
instance and creates `f` with `T` bound to its name. -/
theorem visit_main (h : Seeded l) :
    ∃ l' v, ((visit 1).run linkCtx).run l = .ok ((), l') ∧ Unfolded [] v l' := by
  obtain ⟨-, -, -, -, hrefs, hfindM, hbuilt⟩ := main_facts
  obtain ⟨inst, hinst, hkey⟩ := instance_of_keys (show (keys l)[1]? = some ⟨.decl ⟨["main"]⟩ 2, []⟩ by
    rw [h.keys_eq]
    rfl)
  obtain ⟨d, r, hd, hrefs, hpath, hb⟩ := decl_of_refsAt_single hrefs
  obtain ⟨⟨i, dm⟩, hm, rfl⟩ := Option.map_eq_some_iff.1 hfindM
  obtain ⟨⟨rm, ws⟩, hbuilt, hres⟩ := ok_of_toOption_map hbuilt
  obtain ⟨l₁, hr, hc₁, hi₁, hu₁⟩ := resolveMap_of_built h.cached hbuilt
  have hkeys₁ : keys l₁ = rootKeys := by rw [keys, hi₁, ← keys, h.keys_eq]
  have hnames₁ : NamesUsed l₁ := by
    intro j hj
    rw [hu₁]
    exact h.names j (hi₁ ▸ hj)
  -- the argument `m` is the root's own instance of `m`, whose name is reserved
  have hmem : (⟨.decl ⟨["main"]⟩ 1, []⟩ : InstanceKey) ∈ keys l₁ := by
    rw [hkeys₁]
    simp [rootKeys]
  obtain ⟨v, hname₁, hv⟩ :=
    instanceName_of_mem (rfl : linkCtx.options.wholeFile = false) hmem hnames₁
  have harg : ((argValue linkCtx.root [] "m").run linkCtx).run l₁ = .ok (v, l₁) :=
    (argValue_of_findDecl? (by rfl) hm).trans hname₁
  -- `f` with `T` bound to `v` is new
  have hnew : fKey v ∉ keys l₁ := by
    rw [hkeys₁]
    exact fKey_not_mem_rootKeys
  obtain ⟨l', hvisit, hkeys', hu', hm'⟩ := visit_through_import_of_f hinst (by rw [hkey]; rfl) hd
    hrefs hb hpath (by rw [hkey]; rfl) hr hres (by rw [hkey]; exact harg) hnew
  refine ⟨l', v, hvisit, ⟨?_, List.nodup_singleton v, ?_, hc₁.of_resolveMaps hm'⟩⟩
  · rw [hkeys', hkeys₁]
    rfl
  · intro y hy
    rw [List.nil_append, List.mem_singleton] at hy
    exact hy ▸ hu' v (hu₁ ▸ hv)

/-- An odd visit after `main`: the last `w` refers to nothing. -/
theorem visit_w (h : Unfolded (ys ++ [y]) x l) :
    ∃ l', ((visit (3 + 2 * ys.length)).run linkCtx).run l = .ok ((), l') ∧
      Unfolded (ys ++ [y]) x l' := by
  have hk : (keys l)[3 + 2 * ys.length]? = some (wKey y) := by
    rw [h.keys_eq, chainKeys_append_singleton, show 3 + 2 * ys.length = 2 + 2 * ys.length + 1 by omega]
    have hafter := getElem?_after_chain ys [fKey y, wKey y, fKey x] 1
    simp only [List.append_assoc, List.cons_append, List.nil_append] at hafter ⊢
    exact hafter
  obtain ⟨l', hv, hkeys, hused, hmaps, -⟩ := visit_of_no_references_keeps hk rfl a_facts.2.2.2.1
  exact ⟨l', hv, ⟨hkeys.trans h.keys_eq, h.nodup, hused ▸ h.reserved, h.cached.of_resolveMaps hmaps⟩⟩

/-- An even visit after `main`: the last `f`, with `T` bound to `x`, calls itself through `g`
with `w` as argument. That creates `w` with `T` bound to `x`, under a fresh name `x'`, and then
`f` with `T` bound to `x'`. -/
theorem visit_f (h : Unfolded xs x l) :
    ∃ l' x', ((visit (2 + 2 * xs.length)).run linkCtx).run l = .ok ((), l') ∧
      Unfolded (xs ++ [x]) x' l' := by
  obtain ⟨-, -, hrefs, -, hfindW, hbuilt⟩ := a_facts
  obtain ⟨inst, hinst, hkey⟩ := instance_of_keys (show (keys l)[2 + 2 * xs.length]? = some (fKey x) by
    rw [h.keys_eq, List.append_assoc]
    exact getElem?_after_chain xs [fKey x] 0)
  obtain ⟨d, r, hd, hrefs, hpath, hb⟩ := decl_of_refsAt_single hrefs
  obtain ⟨⟨i, dw⟩, hw, rfl⟩ := Option.map_eq_some_iff.1 hfindW
  obtain ⟨⟨rm, ws⟩, hbuilt, hres⟩ := ok_of_toOption_map hbuilt
  obtain ⟨l₁, hr, hc₁, hi₁, hu₁⟩ := resolveMap_of_built h.cached hbuilt
  have hkeys₁ : keys l₁ = keys l := by rw [keys, hi₁, ← keys]
  -- the argument `w` becomes `w` with `T` bound to `x`, new since `x` is not among `xs`
  have hnew₁ : wKey x ∉ keys l₁ := by
    rw [hkeys₁, h.keys_eq]
    simpa using not_mem_of_nodup_append_singleton h.nodup
  obtain ⟨x', l₂, hname₁, hfresh, hkeys₂, hx', hu₂, hm₂⟩ :=
    instanceName_of_new (rfl : linkCtx.options.wholeFile = false) hnew₁
  have harg : ((argValue ⟨["a"]⟩ [("T", x)] "w").run linkCtx).run l₁ = .ok (x', l₂) :=
    (argValue_of_findDecl? (by simp) hw).trans hname₁
  -- `f` with `T` bound to `x'` is new: `x'` was free, and every name bound so far is reserved
  have hnew₂ : fKey x' ∉ keys l₂ := by
    rw [hkeys₂, hkeys₁, h.keys_eq]
    intro hmem
    have hx : x' ∈ xs ++ [x] := by simpa using hmem
    exact hfresh (hu₁ ▸ h.reserved x' hx)
  obtain ⟨l', hvisit, hkeys₃, hu₃, hm₃⟩ := visit_through_import_of_f hinst (by rw [hkey]; rfl) hd
    hrefs hb hpath (by rw [hkey]; simp [fKey]) hr hres (by rw [hkey]; exact harg) hnew₂
  refine ⟨l', x', hvisit, ⟨?_, ?_, ?_, hc₁.of_resolveMaps (hm₃.trans hm₂)⟩⟩
  · rw [hkeys₃, hkeys₂, hkeys₁, h.keys_eq, chainKeys_append_singleton]
    simp
  · rw [List.nodup_append]
    refine ⟨h.nodup, List.nodup_singleton x', ?_⟩
    intro a ha b hb hab
    rw [List.mem_singleton] at hb
    subst hb hab
    exact hfresh (hu₁ ▸ h.reserved a ha)
  · intro z hz
    rw [List.mem_append, List.mem_singleton] at hz
    rcases hz with hz | rfl
    · exact hu₃ z (hu₂ z (hu₁ ▸ h.reserved z hz))
    · exact hu₃ z hx'

/-! ### Every visit leaves another -/

theorem Reached.lt_size {n : Nat} (h : Reached n l) : n < l.instances.size := by
  rcases h with ⟨hn, hs⟩ | ⟨xs, x, hu, hn⟩
  · rw [← length_keys, hs.keys_eq]
    simp [rootKeys]
    omega
  · rw [hu.size]
    rcases hn with rfl | ⟨ys, y, rfl, rfl⟩
    · omega
    · simp

theorem visit_reached {n : Nat} (h : Reached n l) :
    ∃ l', ((visit n).run linkCtx).run l = .ok ((), l') ∧ Reached (n + 1) l' := by
  rcases h with ⟨hn, hs⟩ | ⟨xs, x, hu, rfl | ⟨ys, y, rfl, rfl⟩⟩
  · -- the root's declarations: `m`, then `main`
    rcases n with _ | _ | n
    · obtain ⟨l', hv, hs'⟩ := visit_m hs
      exact ⟨l', hv, Or.inl ⟨by decide, hs'⟩⟩
    · obtain ⟨l', v, hv, hu'⟩ := visit_main hs
      exact ⟨l', hv, Or.inr ⟨[], v, hu', Or.inl rfl⟩⟩
    · omega
  · obtain ⟨l', x', hv, hu'⟩ := visit_f hu
    exact ⟨l', hv, Or.inr ⟨xs ++ [x], x', hu', Or.inr ⟨xs, x, rfl, by omega⟩⟩⟩
  · obtain ⟨l', hv, hu'⟩ := visit_w hu
    refine ⟨l', hv, Or.inr ⟨ys ++ [y], x, hu', Or.inl ?_⟩⟩
    simp
    omega

theorem seed_seeded : ∃ l₀, ((seed).run linkCtx).run initial = .ok ((), l₀) ∧ Seeded l₀ := by
  obtain ⟨-, -, hdecls, -, -, -, hbuilt⟩ := main_facts
  obtain ⟨⟨rm, ws⟩, hbuilt, -⟩ := ok_of_toOption_map hbuilt
  obtain ⟨l₀, hseed, hkeys, hnames, hcache⟩ := seed_spec (l := initial) hbuilt
  refine ⟨l₀, hseed, ⟨?_, hnames, hcache⟩⟩
  -- the keys are read off the indices of `main`'s declarations
  have hindices := congrArg (List.map fun i => (⟨.decl linkCtx.root i, []⟩ : InstanceKey)) hdecls
  rw [hkeys]
  rw [List.map_map] at hindices
  exact hindices

end SelfImport

open Linker SelfImport in
/-- The link of `main` in `selfImport` never runs out of instances to visit: with any budget
of visits it stops with the stalled fault. -/
theorem link_stalls_on_selfImport (limit : Nat) :
    linkWithin limit selfImport (ModulePath.parse "main") ⟨[], false⟩ = .error (.fault .stalled) := by
  obtain ⟨hmain, hroot, -⟩ := main_facts
  obtain ⟨l₀, hseed, hs⟩ := seed_seeded
  obtain ⟨l, hvisits, hl⟩ := visitFrom_of_step Reached (fun _ _ h => h.lt_size)
    (fun _ _ h => visit_reached h) limit 0 l₀ (Or.inl ⟨by decide, hs⟩)
  rw [hmain]
  exact linkWithin_of_walk (module?_eq_getD hroot) (walk_of_runs hseed hvisits)
    (by simpa using hl.lt_size)

end ShaderLink
