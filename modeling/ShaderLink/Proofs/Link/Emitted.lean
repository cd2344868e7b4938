import ShaderLink.Proofs.Link.Reach
import ShaderLink.Proofs.Edit.Splice

/-!
# The layout of a linked shader

A linked shader's text is laid out in three parts (`Emitted`):

* the global directives that the other contributing modules need and the root does not have,
  each once, each on a line of its own (`DependencyDirectives`);
* the root's conditioned text, with its `module`, import and export elements removed and its
  references renamed (`rootSplices`);
* one piece for each instance that is not part of the root, in order of creation: its
  declaration's text with renames and parameter values applied, or its generator's text
  (`PieceText`), each after a blank line unless it starts the text (`Spaced`).

`emit_emitted` reads this off the two loops of `emit`, from one invariant each; a piece exists
for every instance because every instance's target exists in the registry.

With the instances a walk reaches (`walk_reached`), this is the shape of every successful link
without `wholeFile` (`link_emits_reached`): the pieces are exactly those of the instances
reachable from the root's declarations, in the order they were discovered, one for each
key.
-/

namespace ShaderLink

/-! ### Loops in `Except` -/

/-- A property of the elements a `for` loop in `Except` has processed and of its state, which
each step extends by the element it processes, holds after the loop of all its elements. -/
theorem forIn_prefix_invariant {α σ ε : Type} {xs : List α} {f : α → σ → Except ε (ForInStep σ)}
    (I : List α → σ → Prop)
    (hstep : ∀ pre a post s r, xs = pre ++ a :: post → I pre s → f a s = .ok r →
      ∃ s', r = .yield s' ∧ I (pre ++ [a]) s') :
    ∀ {init r}, I [] init → forIn xs init f = .ok r → I xs r := by
  -- the loop over what is left, after the elements `pre`
  have loop : ∀ rest pre s, xs = pre ++ rest → I pre s → ∀ {r}, forIn rest s f = .ok r →
      I xs r := by
    intro rest
    induction rest with
    | nil =>
      intro pre s hsplit hI r h
      cases h
      simpa [hsplit] using hI
    | cons a rest ih =>
      intro pre s hsplit hI r h
      rw [List.forIn_cons] at h
      obtain ⟨step, hf, h⟩ := exists_of_bind_eq_ok h
      obtain ⟨s', rfl, hI'⟩ := hstep pre a rest s step hsplit hI hf
      exact ih (pre ++ [a]) s' (by simp [hsplit]) hI' h
  intro init r hI h
  exact loop xs [] init rfl hI h

/-! ### Texts of maps -/

namespace SourceMap

@[simp] theorem dest_append (m other : SourceMap) : (m.append other).dest = m.dest ++ other.dest :=
  rfl

@[simp] theorem dest_add (m : SourceMap) (fragment src : String) (span : Span) :
    (m.add fragment src span).dest = m.dest ++ fragment := rfl

theorem dest_of_merge {inner outer m : SourceMap} (h : inner.merge outer = .ok m) :
    m.dest = outer.dest := by
  unfold merge at h
  obtain ⟨pieces, -, h⟩ := exists_of_bind_eq_ok h
  cases h
  rfl

end SourceMap

/-- Splicing nothing into a span of a text gives the span's text. -/
theorem dest_of_splice_nil {text id : String} {span : Span} {m : SourceMap}
    (h : splice text id [] (some span) = .ok m) : m.dest = (Text.sliceString? text span).getD "" := by
  unfold splice at h
  simp only [Option.getD_some, List.filter_nil] at h
  obtain ⟨r, hr, h⟩ := exists_of_bind_eq_ok h
  cases hr
  dsimp only at h
  split at h
  · cases h
  · obtain ⟨m', hcopy, h⟩ := exists_of_bind_eq_ok h
    cases h
    unfold SourceMap.addCopy at hcopy
    split at hcopy
    · next piece hpiece =>
      cases hcopy
      change "" ++ piece = _
      simp [hpiece]
    · cases hcopy

namespace Linker

/-- A directive's text, with nothing renamed, is the directive as written. -/
theorem dest_of_declarationText_nil {m : ParsedModule} {span : Span} {t : SourceMap}
    (h : declarationText m span [] [] = .ok t) : t.dest = m.spanText span := by
  unfold declarationText at h
  obtain ⟨sliced, hsliced, h⟩ := exists_of_bind_eq_ok h
  obtain ⟨mapped, hmapped, h⟩ := exists_of_bind_eq_ok h
  cases h
  rw [SourceMap.dest_of_merge hmapped, dest_of_splice_nil hsliced]
  rfl

/-! ### Blank lines between pieces -/

/-- `text` is `start` followed by `pieces` in order, each after line breaks only, enough that
what precedes the piece is empty or ends in a blank line. -/
inductive Spaced (start : String) : List String → String → Prop
  | nil : Spaced start [] start
  | snoc {pieces : List String} {text : String} (sep piece : String) :
      Spaced start pieces text → (∀ c ∈ sep.toList, c = '\n') →
      (text ++ sep = "" ∨ ['\n', '\n'] <:+ (text ++ sep).toList) →
      Spaced start (pieces ++ [piece]) (text ++ sep ++ piece)

theorem endsWith_iff_isSuffix (s t : String) : s.endsWith t = true ↔ t.toList <:+ s.toList := by
  rw [String.endsWith_eq_endsWith_toSlice, String.Slice.endsWith_string_iff]
  simp

/-- What separates a piece from the text before it is line breaks, enough to leave a blank
line before the piece unless it starts the text. -/
theorem separatorAfter_spec (dest : String) :
    (∀ c ∈ ((separatorAfter dest).getD "").toList, c = '\n') ∧
      (dest ++ (separatorAfter dest).getD "" = "" ∨
        ['\n', '\n'] <:+ (dest ++ (separatorAfter dest).getD "").toList) := by
  unfold separatorAfter
  split
  · next h =>
    refine ⟨by simp, ?_⟩
    rw [Option.getD_none, String.append_empty]
    rcases Bool.or_eq_true_iff.1 h with he | he
    · exact Or.inl (String.isEmpty_iff.1 he)
    · exact Or.inr ((endsWith_iff_isSuffix _ _).1 he)
  · split
    · next h =>
      -- the text ends a line already: one more line break makes the blank line
      refine ⟨by simp, Or.inr ?_⟩
      obtain ⟨t, ht⟩ := (endsWith_iff_isSuffix _ _).1 h
      exact ⟨t, by simp [← ht]⟩
    · exact ⟨by simp, Or.inr ⟨dest.toList, by simp⟩⟩

/-! ### Pieces -/

/-- The instances that are not part of the root's text, with their indices, in order of
creation. -/
def nonRootInstances (root : ModulePath) (l : Linker) : List (Instance × Nat) :=
  l.instances.toList.zipIdx.filter fun p => !isRootInstance root p.1.key

/-- `text` is the piece of the instance `p.1` at index `p.2`. -/
def PieceText (reg : Registry) (p : Instance × Nat) (text : String) : Prop :=
  ∃ m source, piece reg p.2 p.1 = .ok (some (m, source)) ∧ m.dest = text

/-- An instance whose target exists has a piece, unless making its text fails. -/
theorem piece_isSome {reg : Registry} {index : Nat} {inst : Instance}
    {r : Option (SourceMap × Option (String × String))} (hexists : inst.key.target.Exists reg)
    (h : piece reg index inst = .ok r) : r.isSome := by
  unfold piece at h
  split at h
  · next p i htarget =>
    rw [htarget] at hexists
    obtain ⟨d, hd⟩ := hexists
    split at h
    · next hnone =>
      -- a missing module has no declarations
      rw [hnone, Option.getD_none, show (default : ParsedModule).decls = [] from rfl] at hd
      cases hd
    · next m hm =>
      rw [hm, Option.getD_some] at hd
      rw [ParsedModule.decl?_of_mem_decls hd] at h
      obtain ⟨t, -, h⟩ := exists_of_bind_eq_ok h
      cases h
      rfl
  · next mp name htarget =>
    rw [htarget] at hexists
    split at h
    · next hnone => simp [ExportTarget.Exists, hnone] at hexists
    · cases h
      rfl

/-! ### Directives -/

/-- The global directives of a module, as written. -/
def directiveTexts (m : ParsedModule) : List String := (directiveSpans m).map m.spanText

/-- The directive lines of a link: the global directives of the contributing modules other
than the root that the root does not have, each once. -/
structure DependencyDirectives (reg : Registry) (root : ModulePath) (l : Linker)
    (ds : List String) : Prop where
  nodup : ds.Nodup
  not_root : ∀ d ∈ ds, d ∉ directiveTexts ((reg.module? root).getD default)
  from_module : ∀ d ∈ ds, ∃ m ∈ l.modules.toList.filterMap reg.module?, m.path ≠ root ∧
    d ∈ directiveTexts m
  complete : ∀ m ∈ l.modules.toList.filterMap reg.module?, m.path ≠ root →
    ∀ d ∈ directiveTexts m, d ∈ directiveTexts ((reg.module? root).getD default) ∨ d ∈ ds

/-- The state `(out, written)` of the directive loops: the directives written so far are the
root's and then `ds`, each of `ds` once, none of them the root's, each from where `origin` says;
`out` holds `ds` one per line; and every directive that `covered` names is among them. -/
def DirectivesSoFar (rootDirs : List String) (origin covered : String → Prop)
    (st : SourceMap × List String) : Prop :=
  ∃ ds, st.2 = rootDirs ++ ds ∧ st.1.dest = String.join (ds.map (· ++ "\n")) ∧ ds.Nodup ∧
    (∀ d ∈ ds, d ∉ rootDirs ∧ origin d) ∧ ∀ d, covered d → d ∈ rootDirs ∨ d ∈ ds

section DirectivesSoFar

variable {rootDirs : List String} {origin covered origin' covered' : String → Prop}
  {out : SourceMap} {written : List String}

theorem DirectivesSoFar.mono {st : SourceMap × List String}
    (h : DirectivesSoFar rootDirs origin covered st) (ho : ∀ d, origin d → origin' d)
    (hc : ∀ d, covered' d → covered d) : DirectivesSoFar rootDirs origin' covered' st := by
  obtain ⟨ds, hw, hout, hnd, hds, hcov⟩ := h
  exact ⟨ds, hw, hout, hnd, fun d hd => ⟨(hds d hd).1, ho d (hds d hd).2⟩,
    fun d hd => hcov d (hc d hd)⟩

/-- A directive not written yet is written, on a line of its own. -/
theorem DirectivesSoFar.write {w : String} {t : SourceMap}
    (h : DirectivesSoFar rootDirs origin covered (out, written)) (hw : w ∉ written)
    (ht : t.dest = w) (hwo : origin w) :
    DirectivesSoFar rootDirs origin (fun d => covered d ∨ d = w)
      ((out.append t).add "\n" linkerId ⟨0, 0⟩, written ++ [w]) := by
  obtain ⟨ds, rfl, hout, hnd, hds, hcov⟩ := h
  have hout' : out.dest = String.join (ds.map (· ++ "\n")) := hout
  refine ⟨ds ++ [w], by simp, by simp [hout', ht, String.append_assoc], ?_, ?_, ?_⟩
  · exact List.nodup_append.2 ⟨hnd, List.nodup_singleton w, fun a ha b hb hab =>
      hw (by rw [List.mem_singleton.1 hb] at hab; exact List.mem_append_right _ (hab ▸ ha))⟩
  · intro d hd
    rcases List.mem_append.1 hd with hd | hd
    · exact hds d hd
    · rw [List.mem_singleton.1 hd]
      exact ⟨fun hr => hw (List.mem_append_left _ hr), hwo⟩
  · intro d hd
    rcases hd with hd | rfl
    · rcases hcov d hd with hr | hr
      · exact Or.inl hr
      · exact Or.inr (List.mem_append_left _ hr)
    · exact Or.inr (List.mem_append_right _ (List.mem_singleton_self _))

/-- A directive written already is left alone. -/
theorem DirectivesSoFar.present {w : String}
    (h : DirectivesSoFar rootDirs origin covered (out, written)) (hw : w ∈ written) :
    DirectivesSoFar rootDirs origin (fun d => covered d ∨ d = w) (out, written) := by
  obtain ⟨ds, rfl, hout, hnd, hds, hcov⟩ := h
  refine ⟨ds, rfl, hout, hnd, hds, fun d hd => ?_⟩
  rcases hd with hd | rfl
  · exact hcov d hd
  · exact List.mem_append.1 hw

end DirectivesSoFar

/-! ### The linked text -/

/-- The linked text of a finished link `l`: the dependency directives, one per line; the
root's text with `rootSplices` applied; then the pieces of the instances that are not part of
the root, one for each, in order of creation, each after a blank line unless it starts the
text. -/
def Emitted (reg : Registry) (root : ModulePath) (l : Linker) (text : String) : Prop :=
  ∃ ds front pieces, DependencyDirectives reg root l ds ∧
    (∃ sliced, splice ((reg.module? root).getD default).text
        ((reg.module? root).getD default).textId
        (rootSplices ((reg.module? root).getD default) root l) none = .ok sliced ∧
      front = sliced.dest) ∧
    List.Forall₂ (PieceText reg) (nonRootInstances root l) pieces ∧
    Spaced (String.join (ds.map (· ++ "\n")) ++ front) pieces text

/-- The directives of the modules processed so far other than the root. -/
def SeenDirective (root : ModulePath) (pre : List ParsedModule) (d : String) : Prop :=
  ∃ m ∈ pre, m.path ≠ root ∧ d ∈ directiveTexts m

/-- **How a linked shader is laid out.** When every instance's target exists, the text that
`emit` produces is laid out as `Emitted` says. -/
theorem emit_emitted {reg : Registry} {root : ModulePath} {l : Linker} {o : LinkOutput}
    (htargets : ∀ inst ∈ l.instances, inst.key.target.Exists reg) (h : emit reg root l = .ok o) :
    Emitted reg root l o.text := by
  unfold emit at h
  dsimp only at h
  obtain ⟨⟨out₁, written⟩, hloop₁, h⟩ := exists_of_bind_eq_ok h
  obtain ⟨sliced, hsliced, h⟩ := exists_of_bind_eq_ok h
  obtain ⟨rootMap, hmerge, h⟩ := exists_of_bind_eq_ok h
  obtain ⟨⟨sources, out₂⟩, hloop₂, h⟩ := exists_of_bind_eq_ok h
  have htext : o.text = out₂.dest := by
    split at h
    · cases h
    · cases h
      rfl
  let rootDirs := directiveTexts ((reg.module? root).getD default)
  -- the directive loops: each module other than the root writes its directives not written yet
  have hdirs : DirectivesSoFar rootDirs (SeenDirective root (l.modules.toList.filterMap reg.module?))
      (SeenDirective root (l.modules.toList.filterMap reg.module?)) (out₁, written) := by
    refine forIn_prefix_invariant (fun pre st => DirectivesSoFar rootDirs (SeenDirective root pre)
      (SeenDirective root pre) st) ?_ ⟨[], by simp [rootDirs, directiveTexts], rfl, List.nodup_nil,
        by simp, fun d ⟨m, hm, _⟩ => by cases hm⟩ hloop₁
    intro pre m post st r hsplit hst hf
    have grow : ∀ d, SeenDirective root pre d → SeenDirective root (pre ++ [m]) d :=
      fun d ⟨m', hm', hne, hd⟩ => ⟨m', List.mem_append_left _ hm', hne, hd⟩
    split at hf
    · next hne =>
      have hne : m.path ≠ root := by simpa using hne
      obtain ⟨st', hinner, hf⟩ := exists_of_bind_eq_ok hf
      cases hf
      refine ⟨_, rfl, ?_⟩
      -- within the module, each directive span in turn
      have hm := forIn_prefix_invariant (fun preS st => DirectivesSoFar rootDirs
        (fun d => SeenDirective root pre d ∨ d ∈ directiveTexts m)
        (fun d => SeenDirective root pre d ∨ ∃ span ∈ preS, m.spanText span = d) st) ?_
        (hst.mono (fun d hd => Or.inl hd) fun d hd => by
          rcases hd with hd | ⟨span, hspan, -⟩
          · exact hd
          · cases hspan) hinner
      · refine hm.mono (fun d hd => ?_) fun d hd => ?_
        · rcases hd with hd | hd
          · exact grow d hd
          · exact ⟨m, List.mem_append_right _ (List.mem_singleton_self m), hne, hd⟩
        · obtain ⟨m', hm', hne', hd⟩ := hd
          rcases List.mem_append.1 hm' with hm' | hm'
          · exact Or.inl ⟨m', hm', hne', hd⟩
          · rw [List.mem_singleton.1 hm'] at hd
            obtain ⟨span, hspan, rfl⟩ := List.mem_map.1 hd
            exact Or.inr ⟨span, hspan, rfl⟩
      · intro preS span postS st r hsplitS hst hf
        have hspan : span ∈ directiveSpans m := by
          rw [hsplitS]
          exact List.mem_append_right _ List.mem_cons_self
        have narrow : ∀ d, (SeenDirective root pre d ∨ ∃ span' ∈ preS ++ [span],
            m.spanText span' = d) → (SeenDirective root pre d ∨
              ∃ span' ∈ preS, m.spanText span' = d) ∨ d = m.spanText span := by
          intro d hd
          rcases hd with hd | ⟨span', hs', rfl⟩
          · exact Or.inl (Or.inl hd)
          · rcases List.mem_append.1 hs' with hs' | hs'
            · exact Or.inl (Or.inr ⟨span', hs', rfl⟩)
            · rw [List.mem_singleton.1 hs']
              exact Or.inr rfl
        split at hf
        · next hnew =>
          obtain ⟨t, ht, hf⟩ := exists_of_bind_eq_ok hf
          cases hf
          refine ⟨_, rfl, ?_⟩
          have hw : m.spanText span ∉ st.2 := by simpa using hnew
          exact (DirectivesSoFar.write hst hw (dest_of_declarationText_nil ht)
            (Or.inr (List.mem_map_of_mem hspan))).mono (fun _ h => h) narrow
        · next hold =>
          cases hf
          refine ⟨_, rfl, ?_⟩
          have hw : m.spanText span ∈ st.2 := by simpa using hold
          exact (DirectivesSoFar.present hst hw).mono (fun _ h => h) narrow
    · next heq =>
      cases hf
      exact ⟨_, rfl, hst.mono grow fun d ⟨m', hm', hne, hd⟩ => by
        rcases List.mem_append.1 hm' with hm' | hm'
        · exact ⟨m', hm', hne, hd⟩
        · rw [List.mem_singleton.1 hm'] at hne
          simp at heq
          exact absurd heq hne⟩
  obtain ⟨ds, -, hout₁, hnd, hds, hcov⟩ := hdirs
  -- the piece loop: each instance not part of the root adds its piece after a separator
  let start := String.join (ds.map (· ++ "\n")) ++ sliced.dest
  have hpieces : ∃ pieces, List.Forall₂ (PieceText reg) (nonRootInstances root l) pieces ∧
      Spaced start pieces out₂.dest := by
    refine forIn_prefix_invariant (fun pre st => ∃ pieces,
      List.Forall₂ (PieceText reg) (pre.filter fun p => !isRootInstance root p.1.key) pieces ∧
        Spaced start pieces st.2.dest) ?_ ⟨[], .nil, ?_⟩ hloop₂
    · intro pre c post st r hsplit ⟨pieces, hrel, hsp⟩ hf
      obtain ⟨inst, index⟩ := c
      have hmem : inst ∈ l.instances := by
        have hc : (inst, index) ∈ l.instances.toList.zipIdx := by
          rw [hsplit]
          exact List.mem_append_right _ List.mem_cons_self
        exact Array.mem_toList_iff.1 (List.mem_of_getElem? (List.mem_zipIdx_iff_getElem?.1 hc))
      split at hf
      · next hnonroot =>
        obtain ⟨v, hv, hf⟩ := exists_of_bind_eq_ok hf
        obtain ⟨⟨text, source⟩, rfl⟩ := Option.isSome_iff_exists.1 (piece_isSome (htargets _ hmem) hv)
        -- whatever the piece's source, the map gains the separator and the piece
        have hnext : ∃ st', r = .yield st' ∧
            st'.2.dest = st.2.dest ++ (separatorAfter st.2.dest).getD "" ++ text.dest := by
          cases source <;> cases hsep : separatorAfter st.2.dest <;> simp only [hsep] at hf <;>
            cases hf <;> exact ⟨_, rfl, by simp⟩
        obtain ⟨st', rfl, hdest⟩ := hnext
        obtain ⟨hsep, hblank⟩ := separatorAfter_spec st.2.dest
        refine ⟨st', rfl, pieces ++ [text.dest], ?_, ?_⟩
        · rw [List.filter_append, List.filter_cons, List.filter_nil, if_pos hnonroot]
          exact List.rel_append hrel (.cons ⟨text, source, hv, rfl⟩ .nil)
        · rw [hdest]
          exact Spaced.snoc _ _ hsp hsep hblank
      · next hroot =>
        cases hf
        refine ⟨_, rfl, pieces, ?_, hsp⟩
        rw [List.filter_append, List.filter_cons, List.filter_nil, if_neg hroot, List.append_nil]
        exact hrel
    · -- before the loop, the text is the directives and the root's text
      show Spaced start [] (out₁.append rootMap).dest
      rw [SourceMap.dest_append, SourceMap.dest_of_merge hmerge]
      rw [show out₁.dest = String.join (ds.map (· ++ "\n")) from hout₁]
      exact .nil
  obtain ⟨pieces, hrel, hsp⟩ := hpieces
  refine ⟨ds, sliced.dest, pieces, ⟨hnd, fun d hd => (hds d hd).1, fun d hd => ?_, ?_⟩,
    ⟨sliced, hsliced, rfl⟩, hrel, htext ▸ hsp⟩
  · obtain ⟨m, hm, hne, hdm⟩ := (hds d hd).2
    exact ⟨m, hm, hne, hdm⟩
  · intro m hm hne d hd
    exact hcov d ⟨m, hm, hne, hd⟩

end Linker

open Linker in
/-- **What a link emits.** Without `wholeFile`, a successful link's text is the dependency
directives, then the root's text with its `module`, import and export elements removed and its
references renamed, then one piece for each instance that is not part of the root, in order of
creation, each after a blank line unless it starts the text; and those instances are exactly
the ones reachable from the root's declarations through linked references and import arguments,
discovered in that order, one for each key. -/
theorem link_emits_reached {reg : Registry} {root : ModulePath} {options : LinkOptions}
    {o : LinkOutput} (hw : options.wholeFile = false) (h : link reg root options = .ok o) :
    ∃ l, walk ⟨reg, root, options⟩ visitLimit = .ok l ∧ Reached ⟨reg, root, options⟩ l ∧
      Emitted reg root l o.text := by
  unfold link linkWithin at h
  split at h
  · cases h
  · obtain ⟨l, hwalk, h⟩ := exists_of_bind_eq_ok h
    dsimp only at h
    split at h
    · cases h
    · next hlimit =>
      split at h
      · next o' hemit =>
        cases h
        have hg := Steps.good (walk_steps hwalk) (good_seeded _)
        refine ⟨l, hwalk, walk_reached hw hwalk (Nat.le_of_not_lt hlimit),
          emit_emitted (fun inst hinst => hg.targets _ ?_) hemit⟩
        exact List.mem_map.2 ⟨inst, Array.mem_toList_iff.2 hinst, rfl⟩
      · cases h

/-- A root that imports one declaration twice, once under an alias. -/
def importedTwice : Registry :=
  (((Registry.empty ⟨⟨[]⟩, defaultBudget⟩).addSource "main.wgsl"
    "import bar/foo;\n#import foo as f from bar\n\nfn main() { foo(); f(); }\n").1.addSource
    "bar.wgsl" "fn foo() -> f32 { return 1.0; }\n").1

set_option maxRecDepth 100000 in
theorem importedTwice_text :
    ((link importedTwice (ModulePath.parse "main") ⟨[], false⟩).toOption.map fun o => o.text) =
      some "\nfn main() { foo(); foo(); }\n\nfn foo() -> f32 { return 1.0; }" := by
  decide +kernel

/-- Both imports link to one instance of `foo`, emitted once after the root's text. -/
theorem importedTwice_emits_reached :
    ∃ o, link importedTwice (ModulePath.parse "main") ⟨[], false⟩ = .ok o ∧
      o.text = "\nfn main() { foo(); foo(); }\n\nfn foo() -> f32 { return 1.0; }" ∧
      ∃ l, Linker.walk ⟨importedTwice, ModulePath.parse "main", ⟨[], false⟩⟩ Linker.visitLimit =
          .ok l ∧ Linker.Reached ⟨importedTwice, ModulePath.parse "main", ⟨[], false⟩⟩ l ∧
        Linker.Emitted importedTwice (ModulePath.parse "main") l o.text := by
  obtain ⟨o, ho, htext⟩ := Linker.ok_of_toOption_map importedTwice_text
  exact ⟨o, ho, htext, link_emits_reached rfl ho⟩

end ShaderLink
