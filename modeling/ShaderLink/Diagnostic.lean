import ShaderLink.Text.Offset

/-!
# Warnings

A warning is a problem that stops neither parsing nor linking, such as an import that resolves
to nothing. It names a source text, a byte offset into it, the line and column of that offset,
and a message.
-/

namespace ShaderLink

/-- A problem found at a position of a source text. -/
structure Warning where
  source : String
  offset : Nat
  line : Nat
  column : Nat
  message : String
deriving DecidableEq, Repr, Inhabited

/-- A warning about byte `offset` of `text`, the source named `source`. -/
def Warning.at (source text : String) (offset : Nat) (message : String) : Warning :=
  let (line, column) := Text.lineColumn text.toList offset
  ⟨source, offset, line, column, message⟩

end ShaderLink
