import ShaderLink.Sorting
import Mathlib.Data.List.Sort

/-!
# Stable sorting

`sortBy le` is the library's insertion sort for the relation `le a b = true`
(`sortBy_eq_insertionSort`), so it returns a permutation of its input, sorted when `le` is
total and transitive, and leaves a list that is already sorted as it is. The lemmas are stated
as the library states them for `List.mergeSort`.
-/

namespace ShaderLink

variable {α : Type} (le : α → α → Bool)

theorem insertBy_eq_orderedInsert (x : α) (xs : List α) :
    insertBy le x xs = xs.orderedInsert (fun a b => le a b = true) x := by
  induction xs with
  | nil => rfl
  | cons y ys ih => simp [insertBy, ih]

theorem sortBy_eq_insertionSort (xs : List α) :
    sortBy le xs = xs.insertionSort fun a b => le a b = true := by
  induction xs with
  | nil => rfl
  | cons x xs ih =>
    simp only [sortBy, List.foldr_cons, List.insertionSort_cons] at ih ⊢
    rw [ih, insertBy_eq_orderedInsert]

theorem sortBy_perm (xs : List α) : (sortBy le xs).Perm xs := by
  rw [sortBy_eq_insertionSort]
  exact List.perm_insertionSort _ xs

@[simp] theorem mem_sortBy {xs : List α} {x : α} : x ∈ sortBy le xs ↔ x ∈ xs :=
  (sortBy_perm le xs).mem_iff

theorem pairwise_sortBy (trans : ∀ a b c, le a b → le b c → le a c)
    (total : ∀ a b, le a b || le b a) (xs : List α) :
    (sortBy le xs).Pairwise fun a b => le a b := by
  have : Std.Total fun a b => le a b = true := ⟨fun a b => by simpa using total a b⟩
  have : IsTrans α fun a b => le a b = true := ⟨trans⟩
  rw [sortBy_eq_insertionSort]
  exact List.pairwise_insertionSort _ xs

theorem sortBy_of_pairwise {xs : List α} (h : xs.Pairwise fun a b => le a b) :
    sortBy le xs = xs := by
  rw [sortBy_eq_insertionSort]
  exact h.insertionSort_eq

end ShaderLink
