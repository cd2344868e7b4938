/-!
# Stable sorting

Source maps, splices and module paths are sorted stably: elements that compare equal keep
their order. The sort is insertion into a sorted list, written by structural recursion so
that it can be evaluated in proofs by `decide`. The lists sorted here are short or nearly
sorted already, where insertion costs little.
-/

namespace ShaderLink

variable {α : Type}

/-- Inserts `x` into a list sorted by `le`, before the first element `y` with `le x y`. -/
def insertBy (le : α → α → Bool) (x : α) : List α → List α
  | [] => [x]
  | y :: ys => if le x y then x :: y :: ys else y :: insertBy le x ys

/-- Sorts a list by `le`, keeping the order of elements that compare equal: each element,
from the last to the first, is inserted before the elements it does not come after. -/
def sortBy (le : α → α → Bool) (xs : List α) : List α :=
  xs.foldr (insertBy le) []

end ShaderLink
