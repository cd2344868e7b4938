import ShaderLink.Resolve.Overlap
import ShaderLink.Proofs.Scope.Binding

/-!
# Longest overlaps

An overlap of two paths `a` and `b` is a length `k`, at least one and at most both lengths,
such that the last `k` segments of `a` are the first `k` of `b` (`Overlaps`). `overlapTail?`
tries the lengths from the longest down and keeps the first that fits: it finds the longest
overlap and returns what `b` has beyond it, and it finds nothing exactly when the two paths do
not overlap at all, as when either is empty (`overlapTail?_longest`).

The lengths tried are `1, …, min |a| |b|` read backwards, so the search is a backward search
through an increasing list, whose first hit is the largest (`ScopeTree.find?_reverse_eq_some_iff`).
-/

namespace ShaderLink

variable {α : Type}

/-- The last `k` elements of `a` are the first `k` of `b`, for a `k` between one and both
lengths. -/
def Overlaps (a b : List α) (k : Nat) : Prop :=
  1 ≤ k ∧ k ≤ min a.length b.length ∧ a.drop (a.length - k) = b.take k

instance [DecidableEq α] (a b : List α) (k : Nat) : Decidable (Overlaps a b k) :=
  inferInstanceAs (Decidable (_ ∧ _ ∧ _))

/-- `k` is the longest overlap of `a` and `b`. -/
def LongestOverlap (a b : List α) (k : Nat) : Prop :=
  Overlaps a b k ∧ ∀ k', Overlaps a b k' → k' ≤ k

/-- The lengths `overlapTail?` tries are `1, …, min |a| |b|`, longest first. -/
theorem overlapLengths_eq (a b : List α) :
    overlapLengths a b = (List.range' 1 (min a.length b.length)).reverse := by
  rw [overlapLengths, List.map_reverse, List.range'_eq_map_range]
  simp only [Nat.add_comm]

theorem mem_range'_overlapLengths {a b : List α} {k : Nat} :
    k ∈ List.range' 1 (min a.length b.length) ↔ 1 ≤ k ∧ k ≤ min a.length b.length := by
  rw [List.mem_range'_1]
  omega

/-- No length overlaps an empty path. -/
theorem not_overlaps_of_nil {a b : List α} (h : a = [] ∨ b = []) (k : Nat) : ¬ Overlaps a b k := by
  rintro ⟨hk, hmin, -⟩
  rcases h with rfl | rfl <;> simp at hmin <;> omega

section Search

variable [BEq α] [LawfulBEq α] {a b : List α}

/-- The test `overlapTail?` puts to each length. -/
theorem overlapTest_iff {k : Nat} (hk : 1 ≤ k ∧ k ≤ min a.length b.length) :
    (a.drop (a.length - k) == b.take k) = true ↔ Overlaps a b k := by
  rw [beq_iff_eq]
  exact ⟨fun h => ⟨hk.1, hk.2, h⟩, fun h => h.2.2⟩

theorem find?_overlapLengths_eq_some_iff {k : Nat} :
    (overlapLengths a b).find? (fun k => a.drop (a.length - k) == b.take k) = some k ↔
      LongestOverlap a b k := by
  rw [overlapLengths_eq, ScopeTree.find?_reverse_eq_some_iff (List.pairwise_lt_range' 1),
    mem_range'_overlapLengths]
  constructor
  · rintro ⟨hk, htest, hmax⟩
    refine ⟨(overlapTest_iff hk).1 htest, fun k' hk' => ?_⟩
    exact hmax k' (mem_range'_overlapLengths.2 ⟨hk'.1, hk'.2.1⟩)
      ((overlapTest_iff ⟨hk'.1, hk'.2.1⟩).2 hk')
  · rintro ⟨hk, hmax⟩
    refine ⟨⟨hk.1, hk.2.1⟩, (overlapTest_iff ⟨hk.1, hk.2.1⟩).2 hk, fun k' hk' htest => ?_⟩
    exact hmax k' ((overlapTest_iff (mem_range'_overlapLengths.1 hk')).1 htest)

theorem find?_overlapLengths_eq_none_iff :
    (overlapLengths a b).find? (fun k => a.drop (a.length - k) == b.take k) = none ↔
      ∀ k, ¬ Overlaps a b k := by
  rw [overlapLengths_eq, ScopeTree.find?_reverse_eq_none_iff]
  constructor
  · intro h k hk
    have htest := h k (mem_range'_overlapLengths.2 ⟨hk.1, hk.2.1⟩)
    rw [(overlapTest_iff ⟨hk.1, hk.2.1⟩).2 hk] at htest
    cases htest
  · intro h k hk
    rw [Bool.eq_false_iff]
    exact fun htest => h k ((overlapTest_iff (mem_range'_overlapLengths.1 hk)).1 htest)

theorem overlapTail?_eq_some_iff {r : List α} :
    overlapTail? a b = some r ↔ ∃ k, LongestOverlap a b k ∧ r = b.drop k := by
  rw [overlapTail?, Option.map_eq_some_iff]
  constructor
  · rintro ⟨k, hk, rfl⟩
    exact ⟨k, find?_overlapLengths_eq_some_iff.1 hk, rfl⟩
  · rintro ⟨k, hk, rfl⟩
    exact ⟨k, find?_overlapLengths_eq_some_iff.2 hk, rfl⟩

theorem overlapTail?_eq_none_iff : overlapTail? a b = none ↔ ∀ k, ¬ Overlaps a b k := by
  rw [overlapTail?, Option.map_eq_none_iff, find?_overlapLengths_eq_none_iff]

/-- `overlapTail? a b` is what `b` has beyond the longest overlap of `a` and `b`, and nothing
exactly when they do not overlap, in particular when either is empty. -/
theorem overlapTail?_longest (a b : List α) :
    (∀ r, overlapTail? a b = some r ↔ ∃ k, LongestOverlap a b k ∧ r = b.drop k) ∧
    (overlapTail? a b = none ↔ ∀ k, ¬ Overlaps a b k) ∧
    (a = [] ∨ b = [] → overlapTail? a b = none) :=
  ⟨fun _ => overlapTail?_eq_some_iff, overlapTail?_eq_none_iff,
    fun h => overlapTail?_eq_none_iff.2 (not_overlaps_of_nil h)⟩

/-- A path that ends in a repetition of its start overlaps a path that begins with it wholly,
not only in the repeated segment: the longest overlap of `[1, 2, 1]` and `[1, 2, 1, 3]` is `3`. -/
theorem repeatedSegment_longestOverlap : LongestOverlap [1, 2, 1] [1, 2, 1, 3] 3 := by
  have hsome : overlapTail? [1, 2, 1] [1, 2, 1, 3] = some [3] := by decide
  obtain ⟨k, hk, hrest⟩ := ((overlapTail?_longest [1, 2, 1] [1, 2, 1, 3]).1 [3]).1 hsome
  -- only dropping three of the four elements leaves one
  have hk3 : k = 3 := by
    have hlen := congrArg List.length hrest
    simp only [List.length_cons, List.length_nil, List.length_drop] at hlen
    have := hk.1.2.1
    simp only [List.length_cons, List.length_nil] at this
    omega
  exact hk3 ▸ hk

/-- The shorter overlap of the same paths is there as well; the length between is none. -/
example : Overlaps [1, 2, 1] [1, 2, 1, 3] 1 ∧ ¬ Overlaps [1, 2, 1] [1, 2, 1, 3] 2 := by decide

end Search

end ShaderLink
