import ShaderLink.Text.Span

/-!
# Faults

A fault is a broken precondition of an operation: the caller handed over something the
operation cannot make sense of. Faults are values, so every operation stays total, and each
one names its cause. Four causes carry a message of their own (overlapping splices, a merge
that reaches an uncovered position or joins two sources, and a linked map that does not cover
its text); the others are plain misuse of text and spans, and carry none.
-/

namespace ShaderLink

/-- Why an operation could not be carried out. -/
inductive Fault where
  /-- A splice starts before the previous splice ends. -/
  | overlappingSplice (span : Span)
  /-- Composing source maps needs a position of the inner map that no entry covers. -/
  | uncovered (pos : Nat) (id : String)
  /-- A replacement of the outer map would point into two different sources. -/
  | mixedSources (dest : Span)
  /-- A linked text's source map does not partition the text. -/
  | inconsistentLink (detail : String)
  /-- A byte range that is reversed, out of the text, or not on character boundaries. -/
  | badSlice
  /-- A span whose end lies before its start. -/
  | reversedSpan
  /-- A difference of offsets that would be negative. -/
  | negativeOffset
  /-- A walk through a source map that stopped making progress. -/
  | stalled
  /-- An offset that would pass the largest one a map can hold. -/
  | offsetOverflow
deriving DecidableEq, Repr, Inhabited

namespace Fault

/-- The message of a fault, for the causes that have one. -/
def message? : Fault → Option String
  | overlappingSplice s => some ("slice " ++ s.describe ++ " overlaps the previous one")
  | uncovered pos id =>
    some ("source map merge: position " ++ toString pos ++ " of " ++ id ++ " is not covered")
  | mixedSources d =>
    some ("source map merge: replacement " ++ d.describe ++ " spans multiple sources")
  | inconsistentLink detail => some ("linked source map is inconsistent: " ++ detail)
  | _ => none

end Fault

end ShaderLink
