import ShaderLink.Proofs.Edit.KeptBytes
import ShaderLink.Proofs.Edit.Renaming
import ShaderLink.Proofs.Module.References
import ShaderLink.Proofs.Link.Locations
import ShaderLink.Proofs.Resolve.Targets

/-!
# Linking a root that imports nothing

A root none of whose elements is a `module` line, an import or an export stands alone: linking
it gives back its text after `#if` processing, names no other source, and the linked map sends
every byte to the offset of the same byte in the root's source, in order (`link_standalone_exact`).

The walk stays in one state (`Linker.Standalone`): the root's declarations as seeded, under
their own names and with nothing to rename. The root's resolve map is empty, so a reference
bound to nothing resolves to nothing (`linkReference_unbound`), and a bound one links, if at all,
to the seeded instance of a declaration of the root, whose name the reference spells
(`linkReference_bound`, from `parseModule_bound_reference`). So a visit renames nothing
(`visit_standalone`, by induction on the references), and the walk, by induction on the visits,
ends where it started (`visitFrom_keeps`, `walk_standalone`).

Emitting then splices nothing into the root's text, which copies the whole of it
(`splice_nil_whole`); merging that copy into the map of the conditioned text, whose entries are
forward copies tiling it, changes no lookup (`merge_wholeCopy`); and no other piece follows
(`emit_standalone`).
-/

namespace ShaderLink

/-! ### Splicing nothing into a whole text -/

namespace SourceMap

/-- A copy of a whole text is one entry. -/
theorem identity_eq (i s t : String) :
    identity i s t = ⟨i, t, #[⟨s, ⟨0, t.utf8ByteSize⟩, ⟨0, t.utf8ByteSize⟩⟩]⟩ := by
  simp [identity, add, empty, destSize]

theorem compactEntries_singleton (e : MapEntry) :
    compactEntries [e] = [e].filter fun e => !e.destSpan.isEmpty := by
  unfold compactEntries
  cases h : e.destSpan.isEmpty <;> simp [h, sortBy, insertBy, joinInto]

end SourceMap

/-- Splicing nothing into the whole of a text copies it. -/
theorem splice_nil_whole (text id : String) :
    splice text id [] none = .ok (SourceMap.identity (splicedId id) id text).compact := by
  simp [splice, spliceFrom, SourceMap.addCopy, sliceString?_whole, sortBy, SourceMap.identity]
  rfl

namespace SourceMap

/-- The entry of a copy of the whole of `text`, named `id`. -/
def wholeEntry (id text : String) : MapEntry :=
  ⟨id, ⟨0, text.utf8ByteSize⟩, ⟨0, text.utf8ByteSize⟩⟩

/-- The compacted copy of a whole text holds its one entry, unless the text is empty. -/
theorem mem_wholeCopy {i id text : String} {e : MapEntry} :
    e ∈ (identity i id text).compact.entries ↔ e = wholeEntry id text ∧ 0 < text.utf8ByteSize := by
  rw [← Array.mem_toList_iff, compact_entries_toList, identity_eq, List.toList_toArray,
    compactEntries_singleton]
  simp only [Span.isEmpty, List.mem_filter, List.mem_singleton, Bool.not_eq_true',
    beq_eq_false_iff_ne]
  constructor
  · rintro ⟨rfl, hne⟩
    exact ⟨rfl, Nat.pos_of_ne_zero (Ne.symm hne)⟩
  · rintro ⟨rfl, hpos⟩
    exact ⟨rfl, Nat.ne_of_lt hpos⟩

theorem tiles_wholeCopy (i id text : String) :
    Tiles (identity i id text).compact.entries.toList 0 (identity i id text).compact.destSize := by
  rw [compact_entries_toList, identity_eq, List.toList_toArray, compactEntries_singleton,
    compact_destSize, destSize]
  rcases Nat.eq_zero_or_pos text.utf8ByteSize with h | h
  · simp [Span.isEmpty, h]
  · have hne : (0 == text.utf8ByteSize) = false := by
      simp only [beq_eq_false_iff_ne]
      omega
    simp only [List.filter_singleton, Span.isEmpty, hne, Bool.not_false, cond_true]
    exact tiles_singleton.2 ⟨rfl, h, rfl⟩

variable {inner : SourceMap}

/-- A tiled map of forward copies composes with a copy of its whole destination. -/
theorem composable_wholeCopy (htiles : Tiles inner.entries.toList 0 inner.destSize)
    (hcopies : inner.ForwardCopies) :
    Composable inner (identity (splicedId inner.id) inner.id inner.dest).compact where
  inner_tiled := ⟨_, by rw [htiles.filter_filled], htiles⟩
  inner_forward := fun e he => (hcopies e he).2
  outer_forward := fun e he => by
    obtain ⟨rfl, -⟩ := mem_wholeCopy.1 he
    exact ⟨Nat.zero_le _, Nat.zero_le _⟩
  outer_covered := checkCoverage_of_tiles (tiles_wholeCopy _ _ _)
  within := fun e he _ => by
    obtain ⟨rfl, -⟩ := mem_wholeCopy.1 he
    exact Nat.le_refl _
  one_source := fun e he _ hc => by
    obtain ⟨rfl, -⟩ := mem_wholeCopy.1 he
    simp [wholeEntry, MapEntry.isCopy] at hc

/-- **Merging a whole copy.** Composing a tiled map of forward copies with a copy of its whole
destination succeeds and changes no lookup. -/
theorem merge_wholeCopy (htiles : Tiles inner.entries.toList 0 inner.destSize)
    (hcopies : inner.ForwardCopies) :
    ∃ merged, inner.merge (identity (splicedId inner.id) inner.id inner.dest).compact = .ok merged ∧
      merged.dest = inner.dest ∧ merged.compact = merged ∧
      Tiles merged.entries.toList 0 inner.destSize ∧
      ∀ p < inner.destSize, merged.destToSrc? p = inner.destToSrc? p := by
  have h := composable_wholeCopy htiles hcopies
  obtain ⟨merged, hok, -, hdest, hcompact, htiles', -⟩ := merge_spec h
  have hsize : (identity (splicedId inner.id) inner.id inner.dest).compact.destSize =
      inner.destSize := by
    simp [identity_eq, destSize]
  refine ⟨merged, hok, by simp [hdest, identity_eq], hcompact, hsize ▸ htiles', fun p hp => ?_⟩
  obtain ⟨x, hx, hanswer⟩ := merged_destToSrc? h hok (hsize ▸ hp)
  -- the whole copy covers `p`, and so does an inner entry, a copy
  have hwhole : (wholeEntry inner.id inner.dest).Covers p := ⟨Nat.zero_le _, hp⟩
  obtain ⟨f, hf, hfp⟩ := htiles.exists_covers (Nat.zero_le p) hp
  have hf' := Array.mem_toList_iff.1 hf
  obtain ⟨-, hcopy, -⟩ := hanswer _ (mem_wholeCopy.2 ⟨rfl, Nat.lt_of_le_of_lt (Nat.zero_le p) hp⟩)
    hwhole
  have hanswer' := h.inner_tiled.copyAnswer_of_compact (by simpa [wholeEntry] using hp)
    (hcopy rfl (by simp [wholeEntry, MapEntry.isCopy]))
  obtain ⟨hx', -⟩ := hanswer' f hf' (by simpa [wholeEntry] using hfp)
  rw [hx, destToSrc?_of_covers htiles hf' hfp, hx' (hcopies f hf').1]
  simp [wholeEntry]

/-- Appending a map to an empty one renames it and keeps its entries. -/
theorem empty_append (i : String) (m : SourceMap) : (empty i).append m = { m with id := i } := by
  obtain ⟨id, dest, entries⟩ := m
  simp [append, empty, destSize, Span.shift]

end SourceMap

/-! ### Roots that import nothing -/

namespace Element

/-- Whether an element ties its module to others: a `module` line, an import or an export. -/
def isLinkage : Element → Bool
  | .moduleLine _ _ | .importItem _ _ _ | .exportItem _ _ => true
  | _ => false

end Element

namespace ParsedModule

variable {m : ParsedModule}

theorem importLeaves_eq_nil (h : ∀ e ∈ m.elems.toList, e.isLinkage = false) :
    m.importLeaves = [] := by
  unfold importLeaves
  refine List.flatMap_eq_nil_iff.2 fun e he => ?_
  have hl := h e he
  cases e <;> simp_all [Element.isLinkage]

theorem elems_getElem?_of_decl? {i : Nat} {d : Declaration} (h : m.decl? i = some d) :
    m.elems[i]? = some (.decl d) := by
  obtain ⟨e, he, hd⟩ := Option.bind_eq_some_iff.1 h
  cases e <;> simp_all [Element.asDecl?]

end ParsedModule

/-- A parsed module is read from its file, and its text and map are those the conditions
leave. -/
theorem parseModule_sources {text path : String} {options : ParseOptions} {m : ParsedModule}
    (h : parseModule text path options = .ok m) :
    m.sourceId = path ∧ m.source = text ∧ m.map = (applyConditions text path options.conditions).map ∧
      m.text = m.map.dest := by
  unfold parseModule at h
  dsimp only at h
  split at h
  · cases h
  · cases h
    exact ⟨rfl, rfl, rfl, rfl⟩

theorem buildResolveMap_of_importLeaves_nil {reg : Registry} {m : ParsedModule}
    (h : m.importLeaves = []) : buildResolveMap reg m = .ok (ResolveMap.empty, []) := by
  simp [buildResolveMap, h]
  rfl

@[simp] theorem ResolveMap.resolve_empty (r : List String) :
    ResolveMap.empty.resolve r = .unresolved := rfl

/-! ### The walk -/

namespace Linker

/-- The root's declarations as seeding enters them: each under its own name, nothing renamed. -/
def seededInstances (root : ModulePath) (m : ParsedModule) : Array Instance :=
  (m.decls.map fun d => ⟨⟨.decl root d.1, []⟩, d.2.name, []⟩).toArray

/-- A link of a root `m` that imports nothing, as it stands: the root's declarations as seeded,
the root's resolve map built and empty, and the root the one module reached. -/
structure Standalone (ctx : LinkContext) (m : ParsedModule) (l : Linker) : Prop where
  instances_eq : l.instances = seededInstances ctx.root m
  resolveMaps_eq : l.resolveMaps = [(ctx.root, ResolveMap.empty)]
  modules_eq : l.modules = #[ctx.root]

variable {ctx : LinkContext} {m : ParsedModule} {l : Linker}

theorem seed_standalone (hroot : ctx.registry.module? ctx.root = some m)
    (hplain : ∀ e ∈ m.elems.toList, e.isLinkage = false) (l : Linker) :
    ∃ l₀, ((seed).run ctx).run l = .ok ((), l₀) ∧ Standalone ctx m l₀ := by
  have hb := @buildResolveMap_of_importLeaves_nil ctx.registry _
    (ParsedModule.importLeaves_eq_nil hplain)
  simp [seed, resolveMap, hroot, hb]
  exact ⟨_, rfl, rfl, rfl, rfl⟩

/-- The seeded instance of a declaration of the root is found by its key, under the
declaration's name. -/
theorem find?_seededInstances {i : Nat} {d : Declaration} (hd : m.decl? i = some d) :
    ∃ inst, (seededInstances ctx.root m).find? (·.key == ⟨.decl ctx.root i, []⟩) = some inst ∧
      inst.name = d.name := by
  have hmem : (⟨⟨.decl ctx.root i, []⟩, d.name, []⟩ : Instance) ∈ seededInstances ctx.root m := by
    simp only [seededInstances, List.mem_toArray, List.mem_map]
    exact ⟨(i, d), ParsedModule.mem_decls_of_decl? hd, rfl⟩
  have hsome : ((seededInstances ctx.root m).find? (·.key == ⟨.decl ctx.root i, []⟩)).isSome :=
    Array.find?_isSome.2 ⟨_, hmem, by simp⟩
  obtain ⟨inst, hfind⟩ := Option.isSome_iff_exists.1 hsome
  have hkey := Array.find?_some hfind
  obtain ⟨⟨j, d'⟩, hj, rfl⟩ :=
    List.mem_map.1 (List.mem_toArray.1 (Array.mem_of_find?_eq_some hfind))
  -- the instance found has the key asked for, so it is the seeded instance of `d`
  simp at hkey
  subst hkey
  exact ⟨_, hfind, by rw [Option.some.inj ((ParsedModule.decl?_of_mem_decls hj).symm.trans hd)]⟩

/-- A reference bound to nothing resolves through the root's empty map to nothing. -/
theorem linkReference_unbound (hroot : ctx.registry.module? ctx.root = some m)
    (hl : Standalone ctx m l) {r : Reference}
    (hbind : (m.scopes.idents[r.ident]?).bind (·.binding) = none) :
    ∃ l', ((linkReference ctx.root [] r).run ctx).run l = .ok (none, l') ∧ Standalone ctx m l' := by
  have hrm : ((resolveMap ctx.root).run ctx).run l = .ok (ResolveMap.empty, l) := by
    simp [resolveMap, hl.resolveMaps_eq]
    rfl
  simp [linkReference, hroot, hbind]
  -- whatever the path, the empty map leaves it unresolved; a path of several segments is
  -- reported, which changes the warnings alone
  split <;> simp [hrm] <;> split <;> exact ⟨_, rfl, hl.1, hl.2, hl.3⟩

/-- A bound reference of a root declaration links, if at all, to the seeded instance of a
declaration of the root, whose name is the text the reference spells. -/
theorem linkReference_bound {text path : String} {popts : ParseOptions}
    (hparse : parseModule text path popts = .ok m) (hroot : ctx.registry.module? ctx.root = some m)
    (hl : Standalone ctx m l) {i : Nat} {d : Declaration} (hd : m.decl? i = some d) {r : Reference}
    (hr : r ∈ m.references d) {b : Nat}
    (hbind : (m.scopes.idents[r.ident]?).bind (·.binding) = some b) :
    ∃ o, ((linkReference ctx.root [] r).run ctx).run l = .ok (o, l) ∧
      ∀ linked, o = some linked → linked = m.spanText r.span := by
  obtain ⟨x, hx, hb⟩ := Option.bind_eq_some_iff.1 hbind
  obtain ⟨-, hspell, hname⟩ :=
    parseModule_bound_reference hparse (ParsedModule.elems_getElem?_of_decl? hd) hr hx hb
  by_cases hg : m.scopes.isGlobal b = true
  · cases hf : m.decls.find? (·.2.ident == b) with
    | none => exact ⟨none, by simp [linkReference, hroot, hbind, hg, hf]; rfl, by simp⟩
    | some p =>
      obtain ⟨i', d'⟩ := p
      have hid : d'.ident = b := by simpa using List.find?_some hf
      have hd' := ParsedModule.decl?_of_mem_decls (List.mem_of_find?_eq_some hf)
      obtain ⟨inst, hfind, hiname⟩ := @find?_seededInstances ctx m _ _ hd'
      rw [← hl.instances_eq] at hfind
      refine ⟨some inst.name, ?_, ?_⟩
      · simp [linkReference, hroot, hbind, hg, hf, instanceName, ensureInstance_of_find?_some hfind]
        rfl
      · rintro linked ⟨⟩
        rw [hiname, hname i' d' (ParsedModule.elems_getElem?_of_decl? hd') hid, hspell]
  · exact ⟨none, by simp [linkReference, hroot, hbind, hg]; rfl, by simp⟩

/-- Whatever a reference of a root declaration links to is the text it spells, and the link stays
standalone. -/
theorem linkReference_standalone {text path : String} {popts : ParseOptions}
    (hparse : parseModule text path popts = .ok m) (hroot : ctx.registry.module? ctx.root = some m)
    (hl : Standalone ctx m l) {i : Nat} {d : Declaration} (hd : m.decl? i = some d) {r : Reference}
    (hr : r ∈ m.references d) :
    ∃ o l', ((linkReference ctx.root [] r).run ctx).run l = .ok (o, l') ∧ Standalone ctx m l' ∧
      ∀ linked, o = some linked → linked = m.spanText r.span := by
  cases hbind : (m.scopes.idents[r.ident]?).bind (·.binding) with
  | none =>
    obtain ⟨l', hrun, hl'⟩ := linkReference_unbound hroot hl hbind
    exact ⟨none, l', hrun, hl', by simp⟩
  | some b =>
    obtain ⟨o, hrun, ho⟩ := linkReference_bound hparse hroot hl hd hr hbind
    exact ⟨o, l, hrun, hl, ho⟩

/-- Clearing the renames of a seeded instance changes nothing: it has none. -/
theorem seededInstances_modify (root : ModulePath) (m : ParsedModule) (n : Nat) :
    (seededInstances root m).modify n (fun x => { x with renames := [] }) =
      seededInstances root m := by
  apply Array.ext (by simp)
  intro j hj _
  rw [Array.getElem_modify]
  split
  · simp [seededInstances]
  · rfl

/-- **The step lemma.** Visiting a seeded instance renames nothing. -/
theorem visit_standalone {text path : String} {popts : ParseOptions}
    (hparse : parseModule text path popts = .ok m) (hroot : ctx.registry.module? ctx.root = some m)
    (hl : Standalone ctx m l) {n : Nat} (hn : n < l.instances.size) :
    ∃ l', ((visit n).run ctx).run l = .ok ((), l') ∧ Standalone ctx m l' := by
  have hn' : n < m.decls.length := by simpa [hl.instances_eq, seededInstances] using hn
  have hinst : l.instances[n]? =
      some ⟨⟨.decl ctx.root m.decls[n].1, []⟩, m.decls[n].2.name, []⟩ := by
    simp [hl.instances_eq, seededInstances, hn']
  have hd : m.decl? m.decls[n].1 = some m.decls[n].2 :=
    ParsedModule.decl?_of_mem_decls (List.getElem_mem hn')
  simp [visit, visitInstance, hinst, hroot, hd]
  -- the loop over the references, by induction on those still to link: each links, if at all,
  -- to the name it spells, so nothing is renamed
  generalize hrefs : m.references m.decls[n].2 = refs
  have hsub : ∀ r ∈ refs, r ∈ m.references m.decls[n].2 := fun _ h => hrefs ▸ h
  clear hrefs hinst hn
  induction refs generalizing l with
  | nil =>
    refine ⟨_, rfl, ?_, hl.2, hl.3⟩
    rw [hl.1]
    exact seededInstances_modify ctx.root m n
  | cons r rs ih =>
    obtain ⟨o, l', hrun, hl', ho⟩ :=
      linkReference_standalone hparse hroot hl hd (hsub r List.mem_cons_self)
    have hrest := ih hl' fun r h => hsub r (List.mem_cons_of_mem _ h)
    rw [List.forIn_cons]
    cases o with
    | none => simpa [hrun] using hrest
    | some linked => simpa [hrun, ho linked rfl] using hrest

/-- **The run lemma.** What every visit keeps, the visiting loop keeps, whatever its fuel. -/
theorem visitFrom_keeps (P : Linker → Prop)
    (hstep : ∀ n l, P l → n < l.instances.size →
      ∃ l', ((visit n).run ctx).run l = .ok ((), l') ∧ P l') :
    ∀ fuel n l, P l → ∃ l', ((visitFrom fuel n).run ctx).run l = .ok ((), l') ∧ P l'
  | 0, _, l, h => ⟨l, rfl, h⟩
  | fuel + 1, n, l, h => by
    by_cases hn : n < l.instances.size
    · obtain ⟨l₁, hv, h₁⟩ := hstep n l h hn
      obtain ⟨l₂, hr, h₂⟩ := visitFrom_keeps P hstep fuel (n + 1) l₁ h₁
      exact ⟨l₂, by simp [visitFrom, hn, hv, hr], h₂⟩
    · exact ⟨l, by simp [visitFrom, hn]; rfl, h⟩

/-- The walk of a root that imports nothing ends standalone, whatever its limit. -/
theorem walk_standalone {text path : String} {popts : ParseOptions}
    (hparse : parseModule text path popts = .ok m) (hroot : ctx.registry.module? ctx.root = some m)
    (hplain : ∀ e ∈ m.elems.toList, e.isLinkage = false) (limit : Nat) :
    ∃ l, walk ctx limit = .ok l ∧ Standalone ctx m l := by
  obtain ⟨l₀, hseed, h₀⟩ := seed_standalone hroot hplain initial
  obtain ⟨l, hvisits, hl⟩ := visitFrom_keeps (Standalone ctx m)
    (fun _ _ hl hn => visit_standalone hparse hroot hl hn) limit 0 l₀ h₀
  exact ⟨l, walk_of_runs hseed hvisits, hl⟩

end Linker

/-! ### Emitting -/

/-- A loop whose every round leaves its state as it is ends where it started. -/
theorem forIn_yield_self {M : Type → Type} [Monad M] [LawfulMonad M] {α β : Type} (xs : List α)
    (b : β) (f : α → β → M (ForInStep β)) (h : ∀ x ∈ xs, f x b = pure (.yield b)) :
    forIn xs b f = pure b := by
  induction xs with
  | nil => rfl
  | cons x xs ih =>
    rw [List.forIn_cons, h x List.mem_cons_self, pure_bind]
    exact ih fun y hy => h y (List.mem_cons_of_mem _ hy)

namespace Linker

variable {reg : Registry} {root : ModulePath} {options : LinkOptions} {m : ParsedModule}
  {l : Linker}

/-- A standalone link removes nothing from the root's text and renames nothing in it. -/
theorem rootSplices_standalone (hplain : ∀ e ∈ m.elems.toList, e.isLinkage = false)
    (hl : Standalone ⟨reg, root, options⟩ m l) : rootSplices m root l = [] := by
  unfold rootSplices
  simp only [List.append_eq_nil_iff]
  refine ⟨List.filterMap_eq_nil_iff.2 fun e he => ?_, List.flatMap_eq_nil_iff.2 fun inst hinst => ?_⟩
  · have hl := hplain e he
    cases e <;> simp_all [Element.isLinkage]
  · -- the seeded instances rename nothing
    have hmem := (List.mem_filter.1 hinst).1
    rw [hl.instances_eq] at hmem
    obtain ⟨d, -, rfl⟩ := List.mem_map.1 (List.mem_toArray.1 (Array.mem_toList_iff.1 hmem))
    rfl

/-- Every instance of a standalone link is a declaration of the root taken as written. -/
theorem isRootInstance_standalone (hl : Standalone ⟨reg, root, options⟩ m l) :
    ∀ inst ∈ l.instances, isRootInstance root inst.key = true := by
  intro inst hinst
  rw [hl.instances_eq] at hinst
  obtain ⟨d, -, rfl⟩ := List.mem_map.1 (List.mem_toArray.1 hinst)
  simp [isRootInstance]

/-- **Emitting a standalone root.** The linked text is the root's text, its only source is the
root's file, and each of its bytes goes where the root's map sends it. -/
theorem emit_standalone (hroot : reg.module? root = some m)
    (hplain : ∀ e ∈ m.elems.toList, e.isLinkage = false) (hl : Standalone ⟨reg, root, options⟩ m l)
    (htext : m.text = m.map.dest) (htiles : Tiles m.map.entries.toList 0 m.map.destSize)
    (hcopies : m.map.ForwardCopies) :
    ∃ o, emit reg root l = .ok o ∧ o.text = m.text ∧ o.sources = [(m.sourceId, m.source)] ∧
      ∀ p < m.text.utf8ByteSize, o.map.destToSrc? p = m.map.destToSrc? p := by
  obtain ⟨merged, hmerge, hdest, hcompact, htiles', hlook⟩ := SourceMap.merge_wholeCopy htiles hcopies
  have hpath := (Registry.path_of_module? hroot).2
  have hsliced : splice m.text m.textId (rootSplices m root l) none =
      .ok (SourceMap.identity (splicedId m.map.id) m.map.id m.map.dest).compact := by
    rw [rootSplices_standalone hplain hl, htext, splice_nil_whole]
    rfl
  -- the root's piece is the merged map, renamed; compacting it again changes nothing
  have hout : ((SourceMap.empty linkedId).append merged).compact = { merged with id := linkedId } := by
    rw [SourceMap.empty_append]
    have hentries := congrArg SourceMap.entries hcompact
    simp only [SourceMap.compact] at hentries ⊢
    rw [hentries]
  have hcov : ({ merged with id := linkedId } : SourceMap).checkCoverage = none := by
    refine SourceMap.checkCoverage_of_tiles ?_
    simpa [SourceMap.destSize, hdest] using htiles'
  refine ⟨⟨{ merged with id := linkedId }, m.warnings ++ l.warnings.toList, [(m.sourceId, m.source)]⟩,
    ?_, by simp [LinkOutput.text, hdest, htext], rfl, fun p hp => hlook p (by rwa [htext] at hp)⟩
  unfold emit
  simp only [hl.modules_eq, List.filterMap_cons, hroot, List.filterMap_nil, Option.getD_some, hsliced]
  simp [hpath, hmerge]
  -- no instance but the root's own declarations, which the root's text already holds
  rw [forIn_yield_self]
  · simp [hout, hcov, collectLast]
    rfl
  · intro x hx
    simp [isRootInstance_standalone hl x.1 (Array.mem_toList_iff.1 (List.fst_mem_of_mem_zipIdx hx))]

end Linker

/-! ### The linked shader -/

/-- **A root that imports nothing links to itself.** When none of the root's elements is a
`module` line, an import or an export, the link succeeds (the root has no more declarations than
the visit limit). Its text is the root's text after `#if` processing, its only source is the root's
file, and its map sends each byte to an offset of that file holding the same byte: the offsets
`offs` of the bytes, which strictly increase. -/
theorem link_standalone_exact {reg : Registry} {root : ModulePath} {options : LinkOptions}
    {text path : String} {popts : ParseOptions} {m : ParsedModule}
    (hparse : parseModule text path popts = .ok m) (hroot : reg.module? root = some m)
    (hplain : ∀ e ∈ m.elems.toList, e.isLinkage = false)
    (hsize : m.decls.length ≤ Linker.visitLimit) :
    ∃ o, ∃ offs : List Nat, link reg root options = .ok o ∧
      o.text = (applyConditions text path popts.conditions).map.dest ∧
      o.sources = [(path, text)] ∧ offs.length = o.text.utf8ByteSize ∧ offs.Pairwise (· < ·) ∧
      ∀ p (hp : p < offs.length), o.map.destToSrc? p = some ⟨path, offs[p]⟩ ∧
        offs[p] < text.utf8ByteSize ∧ o.text.toByteArray[p]? = text.toByteArray[offs[p]]? := by
  obtain ⟨hid, hsrc, hmap, htext⟩ := parseModule_sources hparse
  have hkept := (applyConditions_eq text path popts.conditions).1
  rw [← hmap] at hkept
  obtain ⟨l, hwalk, hl⟩ := @Linker.walk_standalone ⟨reg, root, options⟩ m text path popts hparse
    hroot hplain Linker.visitLimit
  obtain ⟨o, hemit, hotext, hsources, hlook⟩ := Linker.emit_standalone hroot hplain hl htext
    hkept.tiles (hmap ▸ applyConditions_forwardCopies text path popts.conditions)
  have hlink : link reg root options = .ok o := by
    have hwithin : ¬ Linker.visitLimit < l.instances.size := by
      simpa [hl.instances_eq, Linker.seededInstances] using hsize
    simp [link, linkWithin, hroot, hwalk, hwithin, hemit]
    rfl
  have hlen : (ScannedLine.keptOffsets (popts.conditions.scanLines (Text.linesWithBreaks text.toList) 0 [])).length =
      o.text.utf8ByteSize := by
    rw [hotext, htext, ← hkept.destSize_eq]
    rfl
  refine ⟨o, _, hlink, by rw [hotext, htext, hmap], by rw [hsources, hid, hsrc], hlen,
    (keptOffsets_scanLines _ _ _ _).2, fun p hp => ?_⟩
  have hget := List.getElem?_eq_getElem hp
  obtain ⟨hlt, hbyte⟩ := applyConditions_getElem? text path popts.conditions hget
  refine ⟨?_, hlt, ?_⟩
  · rw [hlook p (by rw [← hotext, ← hlen]; exact hp), hkept.destToSrc? hget]
  · rw [hotext, htext, hmap, hbyte]

/-- A root that imports nothing, with a declaration that its `#if` leaves out and a call of
another of its declarations. -/
def standaloneSource : String :=
  "#if debug\nfn trace() \x7b\x7d\n#endif\nfn helper() -> i32 \x7b return 1; \x7d\nfn main() \x7b let x = helper(); \x7d\n"

def standaloneRegistry : Registry :=
  ((Registry.empty ⟨⟨[]⟩, defaultBudget⟩).addSource "main.wgsl" standaloneSource).1

set_option maxRecDepth 100000 in
/-- The root of `standaloneRegistry` links to its two kept lines, mapped byte for byte back into
its file. -/
theorem standaloneRegistry_links_exactly :
    ∃ m, parseModule standaloneSource "main.wgsl" ⟨⟨[]⟩, defaultBudget⟩ = .ok m ∧
      standaloneRegistry.module? ⟨["main"]⟩ = some m ∧ (∀ e ∈ m.elems.toList, e.isLinkage = false) ∧
      m.decls.length ≤ Linker.visitLimit ∧
      ∃ o, ∃ offs : List Nat, link standaloneRegistry ⟨["main"]⟩ ⟨[], false⟩ = .ok o ∧
        o.text = "fn helper() -> i32 \x7b return 1; \x7d\nfn main() \x7b let x = helper(); \x7d\n" ∧
        o.sources = [("main.wgsl", standaloneSource)] ∧ offs.length = o.text.utf8ByteSize ∧
        offs.Pairwise (· < ·) ∧
        ∀ p (hp : p < offs.length), o.map.destToSrc? p = some ⟨"main.wgsl", offs[p]⟩ ∧
          offs[p] < standaloneSource.utf8ByteSize ∧
          o.text.toByteArray[p]? = standaloneSource.toByteArray[offs[p]]? := by
  have heval : (parseModule standaloneSource "main.wgsl" ⟨⟨[]⟩, defaultBudget⟩).toOption.map
      (fun m => (m.path, m.elems.toList.all (fun e => !e.isLinkage),
        decide (m.decls.length ≤ Linker.visitLimit))) = some (⟨["main"]⟩, true, true) := by
    decide +kernel
  have hkept : (applyConditions standaloneSource "main.wgsl" ⟨[]⟩).map.dest =
      "fn helper() -> i32 \x7b return 1; \x7d\nfn main() \x7b let x = helper(); \x7d\n" := by
    decide +kernel
  obtain ⟨m, hparse, hm⟩ := Linker.ok_of_toOption_map heval
  simp only [Prod.mk.injEq, List.all_eq_true, Bool.not_eq_true', decide_eq_true_eq] at hm
  obtain ⟨hpath, hplain, hsize⟩ := hm
  have hroot : standaloneRegistry.module? ⟨["main"]⟩ = some m := by
    rw [← hpath, standaloneRegistry,
      Registry.addSource_of_ok (r := Registry.empty ⟨⟨[]⟩, defaultBudget⟩) hparse]
    exact Registry.module?_insertModule_self
  obtain ⟨o, offs, hlink, htext, hrest⟩ := link_standalone_exact hparse hroot hplain hsize
  exact ⟨m, hparse, hroot, hplain, hsize, o, offs, hlink, htext.trans hkept, hrest⟩

end ShaderLink
