import ShaderLink.Link.Fresh
import Mathlib.Data.List.Nodup
import Mathlib.Data.Nat.Find

/-!
# Fresh names are fresh

`fresh used base` tries the candidates `base`, `base0`, `base1`, … in turn (`freshCandidate`)
and returns the first one outside `used`, adding it to the set. The candidates are pairwise
distinct: a numbered variant is longer than the name, and distinct numbers have distinct digits
(`freshCandidate_injective`). So candidates that are all in use are no more than `used` holds
(`le_size_of_candidates_mem`), the first free one is among the first `used.size + 1`
(`exists_first_free`), and the search, whose budget is that count, finds it
(`fresh_eq_freshCandidate`).

Made fresh one after another against a set they share, names never collide: each new name is
outside the set, which then holds it for the next (`freshAll_spec`).
-/

namespace ShaderLink

/-- Distinct numbers give distinct variants of a name. -/
theorem numbered_injective (base : String) : Function.Injective (numbered base) := by
  intro i j h
  have hdigits : Nat.toDigits 10 i = Nat.toDigits 10 j := by
    have hlists := congrArg String.toList h
    simpa [numbered, String.toList_append, Nat.toString_eq_ofList_toDigits] using hlists
  have hvalues := congrArg (Nat.ofDigitChars 10 · 0) hdigits
  simpa only [Nat.ofDigitChars_ten_toDigits] using hvalues

/-- A name differs from each of its numbered variants: the digits make them longer. -/
theorem ne_numbered (base : String) (k : Nat) : base ≠ numbered base k := by
  intro h
  have hlen := congrArg String.length h
  have hdigits : 0 < (toString k).length := Nat.length_repr_pos
  simp only [numbered, String.length_append] at hlen
  omega

/-- The names `fresh` tries, in order: the name itself, then its numbered variants `base0`,
`base1`, … -/
def freshCandidate (base : String) : Nat → String
  | 0 => base
  | k + 1 => numbered base k

@[simp] theorem freshCandidate_zero (base : String) : freshCandidate base 0 = base := rfl

@[simp] theorem freshCandidate_succ (base : String) (k : Nat) :
    freshCandidate base (k + 1) = numbered base k := rfl

/-- The candidates are pairwise distinct. -/
theorem freshCandidate_injective (base : String) : Function.Injective (freshCandidate base)
  | 0, 0, _ => rfl
  | 0, j + 1, h => absurd h (ne_numbered base j)
  | i + 1, 0, h => absurd h.symm (ne_numbered base i)
  | _ + 1, _ + 1, h => congrArg (· + 1) (numbered_injective base h)

variable {used : NameSet} {base : String}

theorem mem_iff_contains {x : String} : x ∈ used ↔ used.contains x = true :=
  Std.TreeSet.mem_iff_contains

/-- The first `n` candidates can all be in use only if the set holds at least `n` names. -/
theorem le_size_of_candidates_mem {n : Nat} (h : ∀ i < n, freshCandidate base i ∈ used) :
    n ≤ used.size := by
  have hsub : (List.range n).map (freshCandidate base) ⊆ used.toList := by
    intro x hx
    obtain ⟨i, hi, rfl⟩ := List.mem_map.1 hx
    exact Std.TreeSet.mem_toList.2 (h i (List.mem_range.1 hi))
  have hlen := (List.nodup_range.map (freshCandidate_injective base)).length_le_of_subset hsub
  simpa only [List.length_map, List.length_range, Std.TreeSet.length_toList] using hlen

/-- Some candidate among the first `used.size + 1` is free; the first free one is the least. -/
theorem exists_first_free (used : NameSet) (base : String) :
    ∃ n ≤ used.size, freshCandidate base n ∉ used ∧ ∀ i < n, freshCandidate base i ∈ used := by
  classical
  have hex : ∃ n, freshCandidate base n ∉ used := by
    refine Classical.byContradiction fun hall => ?_
    have hall' : ∀ i < used.size + 1, freshCandidate base i ∈ used :=
      fun i _ => Classical.not_not.1 fun hi => hall ⟨i, hi⟩
    have := le_size_of_candidates_mem hall'
    omega
  have hmin : ∀ i < Nat.find hex, freshCandidate base i ∈ used :=
    fun i hi => Classical.not_not.1 (Nat.find_min hex hi)
  exact ⟨Nat.find hex, le_size_of_candidates_mem hmin, Nat.find_spec hex, hmin⟩

/-- The search over numbered variants from `k` stops at the first one not in use, when it lies
within the search's budget. -/
theorem firstFreeNumbered_eq_of_first : ∀ {budget k j : Nat},
    (∀ i < j, numbered base (k + i) ∈ used) → numbered base (k + j) ∉ used → j ≤ budget →
      firstFreeNumbered used base budget k = numbered base (k + j)
  | 0, _, 0, _, _, _ => rfl
  | _ + 1, k, 0, _, hfree, _ => by
    rw [Nat.add_zero] at hfree
    unfold firstFreeNumbered
    rw [if_neg fun h => hfree (mem_iff_contains.2 h)]
    rfl
  | 0, _, _ + 1, _, _, hj => absurd hj (Nat.not_succ_le_zero _)
  | budget + 1, k, j + 1, hused, hfree, hj => by
    have hshift (i : Nat) : k + 1 + i = k + (i + 1) := by omega
    unfold firstFreeNumbered
    rw [if_pos (mem_iff_contains.1 (Nat.add_zero k ▸ hused 0 (Nat.succ_pos j))),
      firstFreeNumbered_eq_of_first (j := j)
        (fun i hi => hshift i ▸ hused (i + 1) (Nat.succ_lt_succ hi)) (hshift j ▸ hfree)
        (Nat.le_of_succ_le_succ hj), hshift]

/-- `fresh` returns the first free candidate. -/
theorem fresh_eq_freshCandidate {n : Nat} (hn : n ≤ used.size)
    (hfree : freshCandidate base n ∉ used) (hused : ∀ i < n, freshCandidate base i ∈ used) :
    (fresh used base).1 = freshCandidate base n := by
  cases n with
  | zero =>
    show (if used.contains base then _ else base) = base
    rw [freshCandidate_zero] at hfree
    rw [if_neg fun h => hfree (mem_iff_contains.2 h)]
  | succ j =>
    -- the name itself is taken, so the search runs over the numbered variants from `0`
    show (if used.contains base then firstFreeNumbered used base (used.size + 1) 0 else base) = _
    rw [if_pos (mem_iff_contains.1 (freshCandidate_zero base ▸ hused 0 (Nat.succ_pos j)))]
    have hsearch : firstFreeNumbered used base (used.size + 1) 0 = numbered base (0 + j) :=
      firstFreeNumbered_eq_of_first
        (fun i hi => by simpa [Nat.zero_add] using hused (i + 1) (Nat.succ_lt_succ hi))
        (by simpa [Nat.zero_add] using hfree) (by omega)
    rw [hsearch, Nat.zero_add, freshCandidate_succ]

/-- The name that `fresh` picks is not in use. -/
theorem fresh_not_mem (used : NameSet) (base : String) :
    (fresh used base).1 ∉ used := by
  obtain ⟨n, hn, hfree, hused⟩ := exists_first_free used base
  rw [fresh_eq_freshCandidate hn hfree hused]
  exact hfree

/-- The name that `fresh` picks is the name itself or one of its numbered variants. -/
theorem fresh_eq_or_numbered (used : NameSet) (base : String) :
    (fresh used base).1 = base ∨ ∃ n, (fresh used base).1 = numbered base n := by
  obtain ⟨n, hn, hfree, hused⟩ := exists_first_free used base
  rw [fresh_eq_freshCandidate hn hfree hused]
  cases n with
  | zero => exact Or.inl rfl
  | succ k => exact Or.inr ⟨k, rfl⟩

/-- The set `fresh` returns holds the old names and the new one, and nothing else. -/
theorem mem_fresh_iff {x : String} :
    x ∈ (fresh used base).2 ↔ x ∈ used ∨ x = (fresh used base).1 := by
  show x ∈ used.insert (fresh used base).1 ↔ _
  rw [Std.TreeSet.mem_insert, Std.LawfulEqCmp.compare_eq_iff_eq, eq_comm, or_comm]

theorem mem_fresh (used : NameSet) (base : String) :
    (fresh used base).1 ∈ (fresh used base).2 :=
  mem_fresh_iff.2 (Or.inr rfl)

theorem mem_fresh_of_mem {x : String} (h : x ∈ used) : x ∈ (fresh used base).2 :=
  mem_fresh_iff.2 (Or.inl h)

/-! ### Names made fresh one after another -/

theorem freshAll_cons (used : NameSet) (n : String) (ns : List String) :
    freshAll used (n :: ns) =
      ((fresh used n).1 :: (freshAll (fresh used n).2 ns).1, (freshAll (fresh used n).2 ns).2) :=
  rfl

/-- Names made fresh in turn against one growing set: each is its base followed by something,
they are pairwise distinct and none was in the set at the start, which at the end holds its old
names and the new ones. -/
theorem freshAll_spec : ∀ (names : List String) (used : NameSet),
    List.Forall₂ (fun b x => ∃ s, x = b ++ s) names (freshAll used names).1 ∧
      (freshAll used names).1.Nodup ∧ (∀ x ∈ (freshAll used names).1, x ∉ used) ∧
      ∀ x, x ∈ (freshAll used names).2 ↔ x ∈ used ∨ x ∈ (freshAll used names).1
  | [], used => ⟨.nil, List.nodup_nil, by simp [freshAll], by simp [freshAll]⟩
  | n :: ns, used => by
    obtain ⟨hext, hnodup, hnew, hmem⟩ := freshAll_spec ns (fresh used n).2
    rw [freshAll_cons]
    -- the later names avoid the set that already holds the first
    have hlater (x : String) (hx : x ∈ (freshAll (fresh used n).2 ns).1) :
        x ≠ (fresh used n).1 ∧ x ∉ used := by
      refine ⟨fun h => hnew x hx (h ▸ mem_fresh used n), fun h => hnew x hx (mem_fresh_of_mem h)⟩
    refine ⟨.cons ?_ hext, List.nodup_cons.2 ⟨fun h => (hlater _ h).1 rfl, hnodup⟩, ?_, ?_⟩
    · rcases fresh_eq_or_numbered used n with h | ⟨k, h⟩
      · exact ⟨"", by rw [h, String.append_empty]⟩
      · exact ⟨toString k, h⟩
    · intro x hx
      rcases List.mem_cons.1 hx with rfl | hx
      · exact fresh_not_mem used n
      · exact (hlater x hx).2
    · intro x
      rw [hmem, mem_fresh_iff, List.mem_cons, or_assoc]

/-- **Fresh names.** `fresh used base` returns the first of `base`, `base0`, `base1`, … that is
not in `used`, found among the first `used.size + 1` of them, and adds it to `used`, which then
holds exactly its old names and the new one. Made fresh one after another against a set they
share, the names returned start each with their own base, are pairwise distinct, and none of
them was in the set at the start, which at the end holds its old names and the new ones. -/
theorem fresh_first_free (used : NameSet) (base : String) :
    (∃ n ≤ used.size, (fresh used base).1 = freshCandidate base n ∧
        freshCandidate base n ∉ used ∧ ∀ i < n, freshCandidate base i ∈ used) ∧
      (∀ x, x ∈ (fresh used base).2 ↔ x ∈ used ∨ x = (fresh used base).1) ∧
      ∀ names : List String,
        List.Forall₂ (fun b x => ∃ s, x = b ++ s) names (freshAll used names).1 ∧
          (freshAll used names).1.Nodup ∧ (∀ x ∈ (freshAll used names).1, x ∉ used) ∧
          ∀ x, x ∈ (freshAll used names).2 ↔ x ∈ used ∨ x ∈ (freshAll used names).1 := by
  obtain ⟨n, hn, hfree, hused⟩ := exists_first_free used base
  exact ⟨⟨n, hn, fresh_eq_freshCandidate hn hfree hused, hfree, hused⟩, fun _ => mem_fresh_iff,
    fun names => freshAll_spec names used⟩

/-- With `foo` and `foo0` taken, `foo` becomes `foo1`; and `foo`, `foo`, `bar`, made fresh in
turn, become `foo`, `foo0`, `bar`. -/
theorem takenSuffixes_skipped :
    (fresh (Std.TreeSet.ofList ["foo", "foo0"] compare) "foo").1 = "foo1" ∧
      (freshAll {} ["foo", "foo", "bar"]).1 = ["foo", "foo0", "bar"] ∧
      ["foo", "foo0", "bar"].Nodup := by
  have hnames : (freshAll {} ["foo", "foo", "bar"]).1 = ["foo", "foo0", "bar"] := by decide
  have hnodup := ((fresh_first_free {} "foo").2.2 ["foo", "foo", "bar"]).2.1
  exact ⟨by decide, hnames, hnames ▸ hnodup⟩

end ShaderLink
