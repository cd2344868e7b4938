import ShaderLink.Proofs.Resolve.Targets
import Mathlib.Data.List.Destutter

/-!
# The candidates of an ambiguous reference

When the entries of the longest overlap disagree on the target, `resolve` reports the reference
as ambiguous and lists the export paths of those entries, joined by `::`. The list drops repeated
neighbours only (`dedupAdjacent`), so it is the joined export paths of the entries of the
longest overlap, in the order of the entries, with each run of equal paths written once: Mathlib's
`List.destutter (· ≠ ·)` of them (`dedupAdjacent_eq_destutter`).

So no two neighbours of the list are equal, it holds exactly the export paths of the entries of
the longest overlap, in their order, and it holds two of them at least when the recorded export
paths are told apart by their joined form: two entries that disagree on the target have
different export paths. A path can still occur twice, when an entry of another path stands
between two entries of it (`reimported_candidates_repeat`).
-/

namespace ShaderLink

namespace ResolveMap

/-- Dropping repeated neighbours is `List.destutter` by inequality. -/
theorem dedupAdjacent_eq_destutter : ∀ l : List String, dedupAdjacent l = l.destutter (· ≠ ·)
  | [] => rfl
  | [_] => rfl
  | a :: b :: rest => by
    rw [List.destutter_cons_cons]
    unfold dedupAdjacent
    rw [dedupAdjacent_eq_destutter (b :: rest), List.destutter_cons']
    by_cases hab : a = b
    · subst hab
      simp
    · simp [hab]

/-- Collapsing runs of equal neighbours keeps every value. -/
theorem mem_destutter'_ne {x a : String} {l : List String} :
    x ∈ l.destutter' (· ≠ ·) a ↔ x = a ∨ x ∈ l := by
  induction l generalizing a with
  | nil => simp
  | cons b l ih =>
    by_cases hab : a = b
    · subst hab
      simp [ih]
    · simp [hab, ih]

theorem mem_destutter_ne {x : String} : ∀ {l : List String}, x ∈ l.destutter (· ≠ ·) ↔ x ∈ l
  | [] => Iff.rfl
  | _ :: _ => by rw [List.destutter_cons', mem_destutter'_ne, List.mem_cons]

/-- Two different values of a list survive collapsing its runs. -/
theorem two_le_length_destutter_ne {l : List String} {a b : String} (ha : a ∈ l) (hb : b ∈ l)
    (hab : a ≠ b) : 2 ≤ (l.destutter (· ≠ ·)).length := by
  have ha' := mem_destutter_ne.2 ha
  have hb' := mem_destutter_ne.2 hb
  match hc : l.destutter (· ≠ ·) with
  | [] => simp [hc] at ha'
  | [c] =>
    rw [hc, List.mem_singleton] at ha' hb'
    exact absurd (ha'.trans hb'.symm) hab
  | _ :: _ :: _ => simp

variable (m : ResolveMap) (r : List String)

/-- The export paths of the candidates of the longest overlap, joined by `::`, in the order of
the entries. -/
def bestPaths : List String := (m.bestCandidates r).map fun x => "::".intercalate x.2.2.1

variable {m r}

/-- A joined path of the longest overlap is the export path of an entry viable with it. -/
theorem mem_bestPaths {x : String} :
    x ∈ m.bestPaths r ↔ ∃ e ∈ m.paths.toList, ∃ path t,
      m.Viable r e (m.bestOverlap r) path t ∧ x = "::".intercalate path := by
  simp only [bestPaths, bestCandidates, List.mem_map, List.mem_filterMap]
  constructor
  · rintro ⟨⟨k, t, path, args⟩, ⟨e, he, hc⟩, rfl⟩
    obtain ⟨hv, -, rfl⟩ := filter_candidate_eq_some_iff.1 hc
    exact ⟨e, he, path, t, hv, rfl⟩
  · rintro ⟨e, he, path, t, hv, rfl⟩
    exact ⟨_, ⟨e, he, filter_candidate_eq_some_iff.2 ⟨hv, rfl, rfl⟩⟩, rfl⟩

/-- A candidate of the longest overlap carries the target recorded for its export path. -/
theorem lookup?_of_mem_bestCandidates
    {x : Nat × ExportTarget × List String × Option (List String)}
    (hx : x ∈ m.bestCandidates r) : m.lookup? x.2.2.1 = some x.2.1 := by
  obtain ⟨e, -, hc⟩ := List.mem_filterMap.1 hx
  obtain ⟨k, t, path, args⟩ := x
  obtain ⟨⟨rest, -, -, -, hlookup⟩, -, -⟩ := filter_candidate_eq_some_iff.1 hc
  exact hlookup

/-- An ambiguous reference lists the joined export paths of the longest overlap with runs of
equal paths collapsed, and two candidates of them name different targets. -/
theorem ambiguous_cases {cs : List String} (h : m.resolve r = .ambiguous cs) :
    cs = (m.bestPaths r).destutter (· ≠ ·) ∧ ∃ x ∈ m.bestCandidates r, ∃ y ∈ m.bestCandidates r,
      x.2.1 ≠ y.2.1 := by
  rcases resolve_cases (m := m) (r := r) with ⟨-, hres⟩ | ⟨k, t, path, args, rest, hb, hres⟩
  · rw [hres] at h
    cases h
  · rw [hres] at h
    split at h
    · cases h
    · next hall =>
      cases h
      refine ⟨?_, ?_⟩
      · rw [dedupAdjacent_eq_destutter, bestPaths, hb]
        rfl
      · -- a later candidate names another target than the first
        obtain ⟨y, hy, hne⟩ : ∃ y ∈ rest, y.2.1 ≠ t := by
          simpa [List.all_eq_true] using hall
        rw [hb]
        exact ⟨_, List.mem_cons_self, y, List.mem_cons_of_mem _ hy, Ne.symm hne⟩

/-- **Candidates of an ambiguous reference.** When a reference is ambiguous, its candidates are
the export paths, joined by `::`, of the entries viable with the longest overlap, in the order of
the entries, with each run of equal paths written once. So no two neighbours are equal, every
candidate is such a path and every such path is a candidate, in order; and when the recorded
export paths differ in their joined form, there are two candidates at least. -/
theorem resolve_ambiguous_candidates {cs : List String} (h : m.resolve r = .ambiguous cs) :
    cs = (m.bestPaths r).destutter (· ≠ ·) ∧ cs.IsChain (· ≠ ·) ∧ cs.Sublist (m.bestPaths r) ∧
      (∀ x, x ∈ cs ↔ ∃ e ∈ m.paths.toList, ∃ path t,
        m.Viable r e (m.bestOverlap r) path t ∧ x = "::".intercalate path) ∧
      ((∀ p ∈ m.exports, ∀ q ∈ m.exports, "::".intercalate p.1 = "::".intercalate q.1 → p.1 = q.1) →
        2 ≤ cs.length) := by
  obtain ⟨rfl, x, hx, y, hy, hne⟩ := ambiguous_cases h
  refine ⟨rfl, List.isChain_destutter _ _, List.destutter_sublist _ _,
    fun z => mem_destutter_ne.trans mem_bestPaths, fun hjoin => ?_⟩
  -- two candidates with different targets have different recorded paths, so different joins
  have hlx := lookup?_of_mem_bestCandidates hx
  have hly := lookup?_of_mem_bestCandidates hy
  have hpaths : "::".intercalate x.2.2.1 ≠ "::".intercalate y.2.2.1 := by
    intro hxy
    have hsame : x.2.2.1 = y.2.2.1 := hjoin _ (mem_of_lookup? hlx) _ (mem_of_lookup? hly) hxy
    rw [hsame, hly] at hlx
    exact hne (Option.some.inj hlx).symm
  exact two_le_length_destutter_ne (List.mem_map_of_mem hx) (List.mem_map_of_mem hy) hpaths

/-- The resolve map of `import a/foo; import b/foo; import a/{foo};` in a module beside `a` and
`b`, which each export a `foo`. -/
def reimported : ResolveMap :=
  ⟨#[⟨["a", "foo"], ["a", "foo"], none, ⟨0, 14⟩⟩, ⟨["b", "foo"], ["b", "foo"], none, ⟨14, 28⟩⟩,
      ⟨["a", "foo"], ["a", "foo"], none, ⟨28, 44⟩⟩],
    #[(["a", "foo"], .decl ⟨["a"]⟩ 0), (["b", "foo"], .decl ⟨["b"]⟩ 0)]⟩

/-- `foo` is ambiguous in `reimported`, and `a::foo` is listed twice, once for each import of it:
the import of `b::foo` stands between them. -/
theorem reimported_candidates_repeat :
    reimported.resolve ["foo"] = .ambiguous ["a::foo", "b::foo", "a::foo"] ∧
      ¬ ["a::foo", "b::foo", "a::foo"].Nodup := by
  decide

/-- The recorded paths of `reimported` differ in their joined form, and `foo`, ambiguous there,
has its candidates with no two equal neighbours, two of them at least. -/
theorem reimported_candidates :
    reimported.resolve ["foo"] = .ambiguous ["a::foo", "b::foo", "a::foo"] ∧
      (∀ p ∈ reimported.exports, ∀ q ∈ reimported.exports,
        "::".intercalate p.1 = "::".intercalate q.1 → p.1 = q.1) ∧
      2 ≤ ["a::foo", "b::foo", "a::foo"].length ∧
      ["a::foo", "b::foo", "a::foo"].IsChain (· ≠ ·) := by
  have h : reimported.resolve ["foo"] = .ambiguous ["a::foo", "b::foo", "a::foo"] := by decide
  have hjoin : ∀ p ∈ reimported.exports, ∀ q ∈ reimported.exports,
      "::".intercalate p.1 = "::".intercalate q.1 → p.1 = q.1 := by
    decide
  obtain ⟨-, hchain, -, -, hlen⟩ := resolve_ambiguous_candidates h
  exact ⟨h, hjoin, hlen hjoin, hchain⟩

end ResolveMap

end ShaderLink
