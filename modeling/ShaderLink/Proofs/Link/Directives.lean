import ShaderLink.Proofs.Link.Modules

/-!
# The directive lines of a linked shader

A linked shader starts with the global directives (`enable`, `requires`, `diagnostic`) of the
contributing modules other than the root, before the root's text. `Emitted` says which lines
these are as a set; here they are a list (`dependencyDirectives`): the directives of the
contributors, module by module in the order they were reached and in source order within each,
without those the root has, each text once. `emit` writes exactly those lines, each followed by
a line break, and then the root's text (`emit_directive_lines`); so every successful link starts
that way (`link_directive_lines`).

The loops that write them keep the texts written so far, which start as the root's directives.
After each candidate text they hold the root's directives and then the fresh candidates so far
(`DirectivesWritten`): a text already there is left out, any other is written and added.
-/

namespace ShaderLink

namespace Linker

/-! ### Fresh texts -/

/-- The texts of `cs` that are not among `seen`, each once, in the order of their first
occurrence. -/
def freshTexts (seen cs : List String) : List String :=
  (cs.filter fun d => !seen.contains d).eraseDups

theorem mem_freshTexts {seen cs : List String} {d : String} :
    d ∈ freshTexts seen cs ↔ d ∈ cs ∧ d ∉ seen := by
  simp [freshTexts, List.mem_eraseDups]

@[simp] theorem freshTexts_nil (seen : List String) : freshTexts seen [] = [] := rfl

/-- One more candidate is fresh when it is neither seen nor fresh already. -/
theorem freshTexts_snoc (seen cs : List String) (w : String) :
    freshTexts seen (cs ++ [w]) =
      freshTexts seen cs ++ if w ∈ seen ++ freshTexts seen cs then [] else [w] := by
  unfold freshTexts
  rw [List.filter_append, List.eraseDups_append]
  congr 1
  by_cases hs : w ∈ seen
  · simp [hs]
  · by_cases hc : w ∈ cs <;>
      simp [hs, hc, List.removeAll, List.mem_eraseDups, List.eraseDups_cons]

/-- No fresh text comes twice. -/
theorem nodup_freshTexts (seen cs : List String) : (freshTexts seen cs).Nodup := by
  induction cs using List.reverseRecOn with
  | nil => exact List.nodup_nil
  | append_singleton cs w ih =>
    rw [freshTexts_snoc]
    split
    · rwa [List.append_nil]
    · next hw =>
      refine List.nodup_append.2 ⟨ih, List.nodup_singleton w, fun a ha b hb hab => ?_⟩
      rw [List.mem_singleton.1 hb] at hab
      exact hw (List.mem_append_right _ (hab ▸ ha))

/-! ### Writing the directives -/

/-- The directives of the modules of `ms` other than the root, in order. -/
def candidateDirectives (root : ModulePath) (ms : List ParsedModule) : List String :=
  (ms.filter (·.path != root)).flatMap directiveTexts

/-- The state `(out, written)` of the directive loops after the candidate texts `cs`: `written`
is the root's directives and then the fresh candidates, and `out` holds the fresh candidates,
one per line. -/
def DirectivesWritten (rootDirs cs : List String) (st : SourceMap × List String) : Prop :=
  st.2 = rootDirs ++ freshTexts rootDirs cs ∧
    st.1.dest = String.join ((freshTexts rootDirs cs).map (· ++ "\n"))

section DirectivesWritten

variable {rootDirs cs : List String} {out : SourceMap} {written : List String} {w : String}

/-- A candidate written already is left out. -/
theorem DirectivesWritten.present (h : DirectivesWritten rootDirs cs (out, written))
    (hw : w ∈ written) : DirectivesWritten rootDirs (cs ++ [w]) (out, written) := by
  have hwritten : written = rootDirs ++ freshTexts rootDirs cs := h.1
  rw [hwritten] at hw
  rw [DirectivesWritten, freshTexts_snoc, if_pos hw, List.append_nil]
  exact h

/-- A candidate not written yet is written, on a line of its own. -/
theorem DirectivesWritten.write {t : SourceMap} (h : DirectivesWritten rootDirs cs (out, written))
    (hw : w ∉ written) (ht : t.dest = w) :
    DirectivesWritten rootDirs (cs ++ [w])
      ((out.append t).add "\n" linkerId ⟨0, 0⟩, written ++ [w]) := by
  have hwritten : written = rootDirs ++ freshTexts rootDirs cs := h.1
  have hout : out.dest = String.join ((freshTexts rootDirs cs).map (· ++ "\n")) := h.2
  rw [hwritten] at hw
  refine ⟨?_, ?_⟩ <;> rw [freshTexts_snoc, if_neg hw]
  · simp [hwritten]
  · simp [hout, ht, String.append_assoc]

end DirectivesWritten

/-- The directive lines of a link: the directives of the contributors, in the order they were
reached and in source order within each, without those the root has, each text once. -/
def dependencyDirectives (reg : Registry) (root : ModulePath) (l : Linker) : List String :=
  freshTexts (directiveTexts ((reg.module? root).getD default))
    (((contributors root l).filterMap reg.module?).flatMap directiveTexts)

/-- The modules whose directives `emit` reads, the reached ones other than the root, are the
contributors'. -/
theorem filter_reached_modules {reg : Registry} {root : ModulePath} {l : Linker}
    (hreach : ModulesReached root l) :
    (l.modules.toList.filterMap reg.module?).filter (·.path != root) =
      (contributors root l).filterMap reg.module? := by
  rw [hreach, List.filterMap_cons]
  -- the module found for a contributor's path has that path, which is not the root
  have hne : ∀ m ∈ (contributors root l).filterMap reg.module?, (m.path != root) = true := by
    intro m hm
    obtain ⟨p, hp, hpm⟩ := List.mem_filterMap.1 hm
    rw [(Registry.path_of_module? hpm).2]
    simpa using (mem_contributors.1 hp).1
  cases hroot : reg.module? root with
  | none => exact List.filter_eq_self.2 hne
  | some m =>
    rw [List.filter_cons, if_neg (by simp [(Registry.path_of_module? hroot).2])]
    exact List.filter_eq_self.2 hne

/-- **The directive lines.** For a link whose modules are the root and then the contributors,
the text that `emit` produces starts with the dependency directives, each followed by a line
break, and goes on with the root's text. -/
theorem emit_directive_lines {reg : Registry} {root : ModulePath} {l : Linker} {o : LinkOutput}
    (hreach : ModulesReached root l) (h : emit reg root l = .ok o) :
    ∃ sliced rest, splice ((reg.module? root).getD default).text
        ((reg.module? root).getD default).textId
        (rootSplices ((reg.module? root).getD default) root l) none = .ok sliced ∧
      o.text = String.join ((dependencyDirectives reg root l).map (· ++ "\n")) ++ sliced.dest ++
        rest := by
  unfold emit at h
  dsimp only at h
  obtain ⟨⟨out₁, written⟩, hloop₁, h⟩ := exists_of_bind_eq_ok h
  obtain ⟨sliced, hsliced, h⟩ := exists_of_bind_eq_ok h
  obtain ⟨rootMap, hmerge, h⟩ := exists_of_bind_eq_ok h
  obtain ⟨⟨sources, out₂⟩, hloop₂, h⟩ := exists_of_bind_eq_ok h
  have htext : o.text = out₂.dest := by
    split at h
    · cases h
    · cases h
      rfl
  let rootDirs := directiveTexts ((reg.module? root).getD default)
  -- module by module, and within a module directive by directive, the loops write the fresh
  -- candidates
  have hdirs : DirectivesWritten rootDirs
      (candidateDirectives root (l.modules.toList.filterMap reg.module?)) (out₁, written) := by
    refine forIn_prefix_invariant (fun pre st =>
      DirectivesWritten rootDirs (candidateDirectives root pre) st) ?_
      ⟨by simp [rootDirs, directiveTexts, candidateDirectives], rfl⟩ hloop₁
    intro pre m post st r hsplit hst hf
    split at hf
    · next hne =>
      obtain ⟨st', hinner, hf⟩ := exists_of_bind_eq_ok hf
      cases hf
      refine ⟨_, rfl, ?_⟩
      have hcands : candidateDirectives root (pre ++ [m]) =
          candidateDirectives root pre ++ (directiveSpans m).map m.spanText := by
        simp [candidateDirectives, List.filter_append, hne, directiveTexts]
      rw [hcands]
      refine forIn_prefix_invariant (fun preS st => DirectivesWritten rootDirs
        (candidateDirectives root pre ++ preS.map m.spanText) st) ?_ (by simpa using hst) hinner
      intro preS span postS st r hsplitS hst hf
      rw [List.map_append, List.map_singleton, ← List.append_assoc]
      split at hf
      · next hnew =>
        obtain ⟨t, ht, hf⟩ := exists_of_bind_eq_ok hf
        cases hf
        exact ⟨_, rfl, hst.write (by simpa using hnew) (dest_of_declarationText_nil ht)⟩
      · next hold =>
        cases hf
        exact ⟨_, rfl, hst.present (by simpa using hold)⟩
    · next heq =>
      cases hf
      refine ⟨_, rfl, ?_⟩
      have hcands : candidateDirectives root (pre ++ [m]) = candidateDirectives root pre := by
        simp [candidateDirectives, List.filter_append, heq]
      rw [hcands]
      exact hst
  -- the piece loop only appends to the text
  have hpieces : ∃ rest, out₂.dest = (out₁.append rootMap).dest ++ rest := by
    refine forIn_prefix_invariant (fun _ st => ∃ rest, st.2.dest = (out₁.append rootMap).dest ++ rest)
      ?_ ⟨"", by simp⟩ hloop₂
    intro pre c post st r hsplit hst hf
    obtain ⟨rest, hrest⟩ := hst
    split at hf
    · obtain ⟨v, hv, hf⟩ := exists_of_bind_eq_ok hf
      cases v with
      | none =>
        cases hf
        exact ⟨_, rfl, rest, hrest⟩
      | some v =>
        obtain ⟨text, source⟩ := v
        -- whatever the piece's source, the text gains the separator and the piece
        have hnext : ∃ st', r = .yield st' ∧
            st'.2.dest = st.2.dest ++ (separatorAfter st.2.dest).getD "" ++ text.dest := by
          cases source <;> cases hsep : separatorAfter st.2.dest <;> simp only [hsep] at hf <;>
            cases hf <;> exact ⟨_, rfl, by simp⟩
        obtain ⟨st', rfl, hdest⟩ := hnext
        refine ⟨st', rfl, rest ++ (separatorAfter st.2.dest).getD "" ++ text.dest, ?_⟩
        rw [hdest, hrest, String.append_assoc, String.append_assoc, String.append_assoc]
    · cases hf
      exact ⟨_, rfl, rest, hrest⟩
  obtain ⟨rest, hrest⟩ := hpieces
  refine ⟨sliced, rest, hsliced, ?_⟩
  have hcands : candidateDirectives root (l.modules.toList.filterMap reg.module?) =
      ((contributors root l).filterMap reg.module?).flatMap directiveTexts := by
    rw [candidateDirectives, filter_reached_modules hreach]
  rw [htext, hrest, SourceMap.dest_append, SourceMap.dest_of_merge hmerge, hdirs.2, hcands]
  rfl

end Linker

open Linker

/-- **The directive lines of a link.** A successful link's text starts with the directive
lines, each followed by a line break, and then the root's text. The lines are the directives of
the modules other than the root that have a declaration instance, in the order those modules
were reached and in source order within each, without every text that the root has or that
came earlier: so no text comes twice, and each comes from a module that contributes a
declaration. -/
theorem link_directive_lines {reg : Registry} {root : ModulePath} {options : LinkOptions}
    {o : LinkOutput} (h : link reg root options = .ok o) :
    ∃ l, walk ⟨reg, root, options⟩ visitLimit = .ok l ∧
      (∃ sliced rest, splice ((reg.module? root).getD default).text
          ((reg.module? root).getD default).textId
          (rootSplices ((reg.module? root).getD default) root l) none = .ok sliced ∧
        o.text = String.join ((dependencyDirectives reg root l).map (· ++ "\n")) ++ sliced.dest ++
          rest) ∧
      (dependencyDirectives reg root l).Nodup ∧
      ∀ d ∈ dependencyDirectives reg root l, d ∉ directiveTexts ((reg.module? root).getD default) ∧
        ∃ p i args, (⟨.decl p i, args⟩ : InstanceKey) ∈ keys l ∧ p ≠ root ∧
          d ∈ directiveTexts ((reg.module? p).getD default) := by
  obtain ⟨l, hwalk, hemit⟩ := emit_of_link h
  refine ⟨l, hwalk, emit_directive_lines (walk_modulesReached hwalk) hemit,
    nodup_freshTexts _ _, fun d hd => ?_⟩
  -- a directive line is a directive of a contributor that the root does not have
  obtain ⟨hc, hroot⟩ := mem_freshTexts.1 hd
  obtain ⟨m, hm, hdm⟩ := List.mem_flatMap.1 hc
  obtain ⟨p, hp, hpm⟩ := List.mem_filterMap.1 hm
  obtain ⟨hne, i, args, hk⟩ := mem_contributors.1 hp
  exact ⟨hroot, p, i, args, hk, hne, by rw [hpm]; exact hdm⟩

/-- A root that enables `f16` and imports from two modules with directives of their own, beside
a module that nothing imports. -/
def sharedDirectives : Registry :=
  ((((Registry.empty ⟨⟨[]⟩, defaultBudget⟩).addSource "main.wgsl"
    "enable f16;\nimport util/h;\nimport other/g;\nfn main() \x7b h(); g(); \x7d").1.addSource
    "util.wgsl" "enable f16;\nrequires subgroup_id;\nfn h() \x7b\x7d").1.addSource
    "other.wgsl" "requires subgroup_id;\nenable subgroups;\nfn g() \x7b\x7d").1.addSource
    "unused.wgsl" "enable clip_distances;\nfn u() \x7b\x7d" |>.1

set_option maxRecDepth 100000 in
theorem sharedDirectives_text :
    ((link sharedDirectives (ModulePath.parse "main") ⟨[], false⟩).toOption.map fun o => o.text) =
      some ("requires subgroup_id;\nenable subgroups;\nenable f16;\n" ++
        "fn main() \x7b h(); g(); \x7d\n\nfn h() \x7b\x7d\n\nfn g() \x7b\x7d") := by
  decide +kernel

/-- The root's `enable f16` is not repeated, the shared `requires` comes once, from the module
reached first, and the module that nothing imports adds nothing. -/
theorem sharedDirectives_lines :
    ∃ o, link sharedDirectives (ModulePath.parse "main") ⟨[], false⟩ = .ok o ∧
      o.text = "requires subgroup_id;\nenable subgroups;\nenable f16;\n" ++
        "fn main() \x7b h(); g(); \x7d\n\nfn h() \x7b\x7d\n\nfn g() \x7b\x7d" ∧
      ∃ l, walk ⟨sharedDirectives, ModulePath.parse "main", ⟨[], false⟩⟩ visitLimit = .ok l ∧
        (∃ sliced rest, splice ((sharedDirectives.module? (ModulePath.parse "main")).getD default).text
            ((sharedDirectives.module? (ModulePath.parse "main")).getD default).textId
            (rootSplices ((sharedDirectives.module? (ModulePath.parse "main")).getD default)
              (ModulePath.parse "main") l) none = .ok sliced ∧
          o.text = String.join ((dependencyDirectives sharedDirectives (ModulePath.parse "main") l).map
            (· ++ "\n")) ++ sliced.dest ++ rest) ∧
        (dependencyDirectives sharedDirectives (ModulePath.parse "main") l).Nodup ∧
        ∀ d ∈ dependencyDirectives sharedDirectives (ModulePath.parse "main") l,
          d ∉ directiveTexts ((sharedDirectives.module? (ModulePath.parse "main")).getD default) ∧
          ∃ p i args, (⟨.decl p i, args⟩ : InstanceKey) ∈ keys l ∧ p ≠ ModulePath.parse "main" ∧
            d ∈ directiveTexts ((sharedDirectives.module? p).getD default) := by
  obtain ⟨o, ho, htext⟩ := ok_of_toOption_map sharedDirectives_text
  exact ⟨o, ho, htext, link_directive_lines ho⟩

end ShaderLink
