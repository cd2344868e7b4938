import ShaderLink.Resolve.Build
import ShaderLink.Proofs.Resolve.Resolution
import ShaderLink.Parse.Tokens
import ShaderLink.Proofs.Registry.Consistency

/-!
# What resolve maps point at

A resolve map records, for each export path it may need, the declaration or generator the path
names. Building the map looks each of them up in the registry first, so every recorded export is
faithful to the registry (`ExportTarget.Faithful`): a declaration is an exported declaration of
the module at the path's prefix, at its element index and named by the path's last segment; a
generator is registered under the path's prefix and last segment. All three routes that record
exports (a single item, all exports of a module, the search for a bare name) keep this, so every
built map has it (`buildResolveMap_faithful`), and a reference that resolves reaches, at its
export path, an exported declaration or a registered generator: a declaration that is not
exported is never reached through an import.

In particular every recorded target exists in the registry (`ExportTarget.Exists`,
`buildResolveMap_exists`, `resolve_found_exists`).
-/

namespace ShaderLink

/-- A target names something of the registry: a declaration of one of its modules, at its
element index, or one of its generators. -/
def ExportTarget.Exists (reg : Registry) : ExportTarget → Prop
  | .decl p i => ∃ d, (i, d) ∈ ((reg.module? p).getD default).decls
  | .generator p n => (reg.generator? p n).isSome

/-- A recorded export is faithful to the registry: a declaration is an exported declaration of
the module at the path's prefix, at its element index and named by the path's last segment; a
generator is a registered generator of the path's prefix and last segment. -/
def ExportTarget.Faithful (reg : Registry) (path : List String) : ExportTarget → Prop
  | .decl p i => ∃ m d, reg.module? p = some m ∧ m.decl? i = some d ∧ d.exported = true ∧
      m.path.segments ++ [d.name] = path
  | .generator p n => p.segments ++ [n] = path ∧ ∃ g ∈ reg.generators, g.module = p ∧ g.name = n

namespace ParsedModule

variable {m : ParsedModule} {i : Nat} {d : Declaration}

theorem mem_decls_of_mem_exports {x : Nat × Declaration} (h : x ∈ m.exports) : x ∈ m.decls :=
  (List.mem_filter.1 h).1

theorem decl?_of_mem_decls (h : (i, d) ∈ m.decls) : m.decl? i = some d := by
  unfold ParsedModule.decls at h
  obtain ⟨⟨e, k⟩, hek, he⟩ := List.mem_filterMap.1 h
  obtain ⟨d', hd', hkd⟩ := Option.map_eq_some_iff.1 he
  cases hkd
  have hget : m.elems.toList[i]? = some e := List.mem_zipIdx_iff_getElem?.1 hek
  simp only [ParsedModule.decl?, ← Array.getElem?_toList, hget, Option.bind_some]
  exact hd'

theorem mem_decls_of_decl? (h : m.decl? i = some d) : (i, d) ∈ m.decls := by
  obtain ⟨e, he, hd⟩ := Option.bind_eq_some_iff.1 h
  unfold ParsedModule.decls
  refine List.mem_filterMap.2 ⟨(e, i), ?_, by simp [hd]⟩
  rw [List.mem_zipIdx_iff_getElem?, Array.getElem?_toList]
  exact he

/-- An export found by name is an exported declaration of that name, at its index. -/
theorem findExport?_spec {name : String} (h : m.findExport? name = some (i, d)) :
    m.decl? i = some d ∧ d.exported = true ∧ d.name = name := by
  have hmem := List.mem_of_find?_eq_some h
  have hname : d.name = name := by simpa using List.find?_some h
  exact ⟨decl?_of_mem_decls (mem_decls_of_mem_exports hmem), (List.mem_filter.1 hmem).2, hname⟩

end ParsedModule

namespace Registry

variable {reg : Registry}

theorem decl_exists_of_mem {p : ModulePath} {m : ParsedModule} {i : Nat} {d : Declaration}
    (hm : reg.module? p = some m) (hd : (i, d) ∈ m.decls) : (ExportTarget.decl p i).Exists reg :=
  ⟨d, by rw [hm]; exact hd⟩

/-- An exported declaration of a module of the registry, recorded under the module's path and
the declaration's name. -/
theorem decl_faithful {p : ModulePath} {m : ParsedModule} {i : Nat} {d : Declaration}
    (hm : reg.module? p = some m) (hd : (i, d) ∈ m.exports) :
    (ExportTarget.decl p i).Faithful reg (p.segments ++ [d.name]) :=
  ⟨m, d, hm, ParsedModule.decl?_of_mem_decls (ParsedModule.mem_decls_of_mem_exports hd),
    (List.mem_filter.1 hd).2, by rw [(path_of_module? hm).2]⟩

/-- A registered generator, recorded under its module and name. -/
theorem generator_faithful {g : Generator} {path : List String} (hg : g ∈ reg.generators)
    (hpath : g.module.segments ++ [g.name] = path) :
    (ExportTarget.generator g.module g.name).Faithful reg path :=
  ⟨hpath, g, hg, rfl, rfl⟩

/-- A registered generator is found under its own module and name. -/
theorem generator_exists_of_mem {g : Generator} (hg : g ∈ reg.generators) :
    (ExportTarget.generator g.module g.name).Exists reg := by
  show (reg.generators.find? fun h => h.module == g.module && h.name == g.name).isSome
  rw [List.find?_isSome]
  exact ⟨g, hg, by simp⟩

theorem mem_of_generator? {p : ModulePath} {n : String} {g : Generator}
    (h : reg.generator? p n = some g) : g ∈ reg.generators :=
  List.mem_of_find?_eq_some h

end Registry

/-- What is recorded faithfully exists. -/
theorem ExportTarget.Faithful.exists {reg : Registry} {path : List String} {t : ExportTarget}
    (h : t.Faithful reg path) : t.Exists reg := by
  cases t with
  | decl p i =>
    obtain ⟨m, d, hm, hd, -, -⟩ := h
    exact Registry.decl_exists_of_mem hm (ParsedModule.mem_decls_of_decl? hd)
  | generator p n =>
    obtain ⟨-, g, hg, rfl, rfl⟩ := h
    exact Registry.generator_exists_of_mem hg

namespace ResolveMap

variable {m : ResolveMap}

/-- A path looked up is recorded with the target it gives. -/
theorem mem_of_lookup? {path : List String} {t : ExportTarget} (h : m.lookup? path = some t) :
    (path, t) ∈ m.exports := by
  obtain ⟨e, he, rfl⟩ := Option.map_eq_some_iff.1 h
  have hpath : e.1 = path := by simpa using Array.find?_some he
  rw [← hpath]
  exact Array.mem_of_find?_eq_some he

/-- A reference that resolves gets its target from the export recorded under its export
path. -/
theorem mem_of_resolve_eq_found {r : List String} {t : ExportTarget} {p : List String}
    {a : Option (List String)} (h : m.resolve r = .found t p a) : (p, t) ∈ m.exports := by
  obtain ⟨k, -, -, hfirst⟩ := resolve_eq_found_iff.1 h
  obtain ⟨e, -, rest, -, -, -, hlookup⟩ := hfirst.viable
  exact mem_of_lookup? hlookup

/-- Recording an export keeps the other records and adds this one. -/
theorem mem_insertExport {path : List String} {t : ExportTarget} {e : List String × ExportTarget}
    (h : e ∈ (m.insertExport path t).exports) : e ∈ m.exports ∨ e = (path, t) := by
  unfold insertExport at h
  split at h
  · obtain ⟨e', he', rfl⟩ := Array.mem_map.1 h
    split
    · exact Or.inr rfl
    · exact Or.inl he'
  · rcases Array.mem_push.1 h with h | h
    · exact Or.inl h
    · exact Or.inr h

end ResolveMap

namespace MapBuilder

variable {reg : Registry} {α β : Type}

/-- Every export recorded so far is faithful to the registry. -/
def Sound (reg : Registry) (b : MapBuilder) : Prop := ∀ e ∈ b.map.exports, e.2.Faithful reg e.1

/-- Every run of a building step that succeeds keeps the records sound. -/
def Keeps (reg : Registry) (x : BuildM α) : Prop :=
  ∀ b a b', Sound reg b → x.run b = .ok (a, b') → Sound reg b'

/-! ### Building blocks -/

theorem keeps_pure (a : α) : Keeps reg (pure a : BuildM α) := by
  intro b a' b' hb h
  cases h
  exact hb

theorem keeps_bind {x : BuildM α} {f : α → BuildM β} (hx : Keeps reg x)
    (hf : ∀ a, Keeps reg (f a)) : Keeps reg (x >>= f) := by
  intro b c b'' hb h
  simp only [StateT.run_bind] at h
  cases hr : x.run b with
  | error e =>
    rw [hr] at h
    cases h
  | ok r =>
    rw [hr] at h
    exact hf r.1 r.2 c b'' (hx b r.1 r.2 hb hr) h

theorem keeps_modify {f : MapBuilder → MapBuilder} (hf : ∀ b, Sound reg b → Sound reg (f b)) :
    Keeps reg (modify f : BuildM PUnit) := by
  intro b a b' hb h
  cases h
  exact hf b hb

theorem keeps_throw (e : LinkError) : Keeps reg (throw e : BuildM α) := by
  intro b a b' hb h
  cases h

/-- A `for` loop whose body keeps the records sound, for every element it runs on, keeps them
sound. -/
theorem keeps_forIn {γ : Type} (xs : List γ) (f : γ → β → BuildM (ForInStep β))
    (hf : ∀ c ∈ xs, ∀ s, Keeps reg (f c s)) : ∀ init, Keeps reg (forIn xs init f) := by
  induction xs with
  | nil => exact fun init => keeps_pure init
  | cons c xs ih =>
    intro init
    rw [List.forIn_cons]
    refine keeps_bind (hf c List.mem_cons_self init) fun r => ?_
    cases r with
    | done s => exact keeps_pure s
    | yield s => exact ih (fun c hc => hf c (List.mem_cons_of_mem _ hc)) s

theorem keeps_forM {γ : Type} (xs : List γ) (f : γ → BuildM PUnit)
    (hf : ∀ c ∈ xs, Keeps reg (f c)) : Keeps reg (xs.forM f) := by
  induction xs with
  | nil => exact keeps_pure _
  | cons c xs ih =>
    exact keeps_bind (hf c List.mem_cons_self) fun _ =>
      ih fun c hc => hf c (List.mem_cons_of_mem _ hc)

/-! ### The steps of a build -/

theorem keeps_record {path : List String} {t : ExportTarget} (ht : t.Faithful reg path) :
    Keeps reg (record path t) := by
  refine keeps_modify fun b hb e he => ?_
  rcases ResolveMap.mem_insertExport he with he | rfl
  · exact hb e he
  · exact ht

theorem keeps_warn (module : ParsedModule) (span : Span) (message : String) :
    Keeps reg (warn module span message) :=
  keeps_modify fun _ hb => hb

theorem keeps_checkParsed (p : ModulePath) : Keeps reg (checkParsed reg p) := by
  unfold checkParsed
  split
  · exact keeps_throw _
  · exact keeps_pure _

/-- A single item is recorded only when it is a registered generator or an exported
declaration of a module of the registry, under the module's path and the item's name. -/
theorem keeps_addItem (path : List String) : Keeps reg (addItem reg path) := by
  unfold addItem
  split
  · exact keeps_pure _
  · next name hlast =>
    -- the path is the module path `path.dropLast` followed by the item's name
    have hpath : path.dropLast ++ [name] = path := by
      obtain ⟨ys, rfl⟩ := List.getLast?_eq_some_iff.1 hlast
      simp
    refine keeps_bind (keeps_checkParsed _) fun _ => ?_
    split
    · next g hg =>
      refine keeps_bind (keeps_record ?_) fun _ => keeps_pure _
      have hfound := List.find?_some hg
      simp only [Bool.and_eq_true, beq_iff_eq] at hfound
      obtain ⟨hmodule, hname⟩ := hfound
      exact Registry.generator_faithful (Registry.mem_of_generator? hg) (by rw [hmodule, hname, hpath])
    · split
      · exact keeps_pure _
      · next m hm =>
        split
        · next i d hd =>
          refine keeps_bind (keeps_record ?_) fun _ => keeps_pure _
          have h := Registry.decl_faithful hm (List.mem_of_find?_eq_some hd)
          rwa [(ParsedModule.findExport?_spec hd).2.2, hpath] at h
        · exact keeps_pure _

theorem keeps_addModuleExports (path : List String) : Keeps reg (addModuleExports reg path) := by
  unfold addModuleExports
  refine keeps_bind (keeps_checkParsed _) fun _ => ?_
  refine keeps_bind (keeps_forIn _ _ (fun g hg _ => ?_) _) fun _ => ?_
  · refine keeps_bind (keeps_record ?_) fun _ => keeps_pure _
    obtain ⟨hmem, hmodule⟩ := List.mem_filter.1 hg
    exact Registry.generator_faithful hmem (by rw [beq_iff_eq.1 hmodule])
  · split
    · exact keeps_pure _
    · next m hm =>
      refine keeps_bind (keeps_forIn _ _ (fun x hx _ => ?_) _) fun _ => keeps_pure _
      exact keeps_bind (keeps_record (Registry.decl_faithful hm hx)) fun _ => keeps_pure _

theorem keeps_searchBare (module : ParsedModule) (name : String)
    (leaves : List (Span × ImportLeaf)) : Keeps reg (searchBare reg module name leaves) := by
  unfold searchBare
  dsimp only
  split
  · exact keeps_pure _
  · exact keeps_bind (keeps_addItem _) fun _ => keeps_pure _

/-- Recording an import entry leaves the exports alone. -/
theorem sound_of_exports_eq {b b' : MapBuilder} (he : b'.map.exports = b.map.exports)
    (hb : Sound reg b) : Sound reg b' := by
  intro e hmem
  exact hb e (he ▸ hmem)

theorem keeps_addLeaf (module : ParsedModule) (leaves : List (Span × ImportLeaf)) (span : Span)
    (leaf : ImportLeaf) : Keeps reg (addLeaf reg module leaves span leaf) := by
  unfold addLeaf
  dsimp only
  split
  · exact keeps_warn _ _ _
  · split
    · refine keeps_bind (keeps_addModuleExports _) fun _ => ?_
      split
      · exact keeps_bind (keeps_warn _ _ _) fun _ => keeps_modify fun _ => sound_of_exports_eq rfl
      · exact keeps_modify fun _ => sound_of_exports_eq rfl
    · refine keeps_bind (keeps_addItem _) fun _ => keeps_bind (keeps_addModuleExports _) fun _ => ?_
      -- a bare name may be searched for; then the entry is recorded, with a warning if missing
      split
      · refine keeps_bind (keeps_searchBare _ _ _) fun found => ?_
        split
        all_goals
          split
          · exact keeps_bind (keeps_warn _ _ _) fun _ => keeps_modify fun _ => sound_of_exports_eq rfl
          · exact keeps_modify fun _ => sound_of_exports_eq rfl
      · split
        · exact keeps_bind (keeps_warn _ _ _) fun _ => keeps_modify fun _ => sound_of_exports_eq rfl
        · exact keeps_modify fun _ => sound_of_exports_eq rfl

end MapBuilder

/-- Every export a built resolve map records is faithful to the registry. -/
theorem buildResolveMap_sound {reg : Registry} {module : ParsedModule} {rm : ResolveMap}
    {ws : List Warning} (h : buildResolveMap reg module = .ok (rm, ws)) :
    ∀ e ∈ rm.exports, e.2.Faithful reg e.1 := by
  unfold buildResolveMap at h
  dsimp only at h
  cases hr : (module.importLeaves.forM fun x => MapBuilder.addLeaf reg module module.importLeaves
      x.1 x.2 : BuildM Unit).run ⟨ResolveMap.empty, #[]⟩ with
  | error e =>
    rw [hr] at h
    cases h
  | ok r =>
    rw [hr] at h
    cases h
    have hkeeps : MapBuilder.Keeps reg (module.importLeaves.forM fun x =>
        MapBuilder.addLeaf reg module module.importLeaves x.1 x.2 : BuildM Unit) :=
      MapBuilder.keeps_forM _ _ fun x _ => MapBuilder.keeps_addLeaf _ _ _ _
    exact hkeeps _ _ _ (fun e he => by simp [ResolveMap.empty] at he) hr

/-- Every target a built resolve map records names something of the registry. -/
theorem buildResolveMap_exists {reg : Registry} {module : ParsedModule} {rm : ResolveMap}
    {ws : List Warning} (h : buildResolveMap reg module = .ok (rm, ws)) :
    ∀ e ∈ rm.exports, e.2.Exists reg :=
  fun e he => (buildResolveMap_sound h e he).exists

/-- A reference that resolves through a built map names something of the registry. -/
theorem resolve_found_exists {reg : Registry} {module : ParsedModule} {rm : ResolveMap}
    {ws : List Warning} (h : buildResolveMap reg module = .ok (rm, ws)) {r : List String}
    {t : ExportTarget} {p : List String} {a : Option (List String)}
    (hr : rm.resolve r = .found t p a) : t.Exists reg :=
  buildResolveMap_exists h _ (ResolveMap.mem_of_resolve_eq_found hr)

/-- Every export of a built resolve map is faithful to the registry, and so is what a reference
resolves to at its export path: an exported declaration of the module the path names, or a
registered generator. -/
theorem buildResolveMap_faithful {reg : Registry} {module : ParsedModule} {rm : ResolveMap}
    {ws : List Warning} (h : buildResolveMap reg module = .ok (rm, ws)) :
    (∀ e ∈ rm.exports, e.2.Faithful reg e.1) ∧
      ∀ r t path args, rm.resolve r = .found t path args → t.Faithful reg path :=
  ⟨buildResolveMap_sound h, fun _ _ _ _ hr =>
    buildResolveMap_sound h _ (ResolveMap.mem_of_resolve_eq_found hr)⟩

/-- A module that imports `util::foo` and the module `util`, which exports `foo` and keeps
`hidden` to itself. -/
def exportOnly : Registry :=
  (((Registry.empty ⟨⟨[]⟩, defaultBudget⟩).addSource "main.wgsl"
    "import util/foo;\nimport util;\nfn main() {}").1.addSource "util.wgsl"
    "#export\nfn foo() {}\nfn hidden() {}").1

set_option maxRecDepth 100000 in
/-- The map of `main` records `util::foo` alone: `hidden`, not exported, is left out. -/
theorem exportOnly_records_foo :
    ((buildResolveMap exportOnly ((exportOnly.module? ⟨["main"]⟩).getD default)).toOption.map
      fun p => p.1.exports.toList.map (·.1)) = some [["util", "foo"]] := by
  decide +kernel

theorem exportOnly_faithful : ∃ rm ws,
    buildResolveMap exportOnly ((exportOnly.module? ⟨["main"]⟩).getD default) = .ok (rm, ws) ∧
      rm.exports.toList.map (·.1) = [["util", "foo"]] ∧
      (∀ e ∈ rm.exports, e.2.Faithful exportOnly e.1) ∧
      ∀ r t path args, rm.resolve r = .found t path args → t.Faithful exportOnly path := by
  have hrecords := exportOnly_records_foo
  cases h : buildResolveMap exportOnly ((exportOnly.module? ⟨["main"]⟩).getD default) with
  | error e =>
    rw [h] at hrecords
    cases hrecords
  | ok p =>
    rw [h] at hrecords
    exact ⟨p.1, p.2, rfl, Option.some.inj hrecords, buildResolveMap_faithful h⟩

end ShaderLink
