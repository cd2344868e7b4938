/-!
# Path overlap

A reference such as `util::helper` resolves through an import whose path ends where the
reference begins. `overlapTail? a b` finds the longest suffix of `a` that is also a prefix of
`b`, at least one element long, and returns what remains of `b` after it.
-/

namespace ShaderLink

variable {α : Type}

/-- The overlap lengths worth trying, longest first: `min |a| |b|`, …, `1`. -/
def overlapLengths (a b : List α) : List Nat :=
  (List.range (min a.length b.length)).reverse.map (· + 1)

/-- The rest of `b` after the longest non-empty suffix of `a` that is a prefix of `b`. -/
def overlapTail? [BEq α] (a b : List α) : Option (List α) :=
  ((overlapLengths a b).find? fun k => a.drop (a.length - k) == b.take k).map b.drop

end ShaderLink
