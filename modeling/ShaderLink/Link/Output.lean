import ShaderLink.SourceMap.Basic
import ShaderLink.Diagnostic
import ShaderLink.Text.Offset

/-!
# Linked shaders

A linked shader is its text with a source map back to the texts it was built from: the module
sources, the texts of generator instances, and `<linker>` for the separators the linker put
in between. Locating a byte of the text follows the map into one of those texts.
-/

namespace ShaderLink

/-- The name of a linked shader's text. -/
def linkedId : String := "<linked>"

/-- The source of the separators and line breaks that the linker inserts. -/
def linkerId : String := "<linker>"

/-- A linked shader. -/
structure LinkOutput where
  /-- From the linked text back to the texts in `sources`. -/
  map : SourceMap
  warnings : List Warning
  /-- The texts that `map` points into, by name, each name once. -/
  sources : List (String × String)
deriving Inhabited

/-- A position in one of the texts a linked shader was built from. -/
structure SourceLocation where
  source : String
  offset : Nat
  line : Nat
  column : Nat
deriving DecidableEq, Repr, Inhabited

namespace LinkOutput

/-- The linked text. -/
def text (o : LinkOutput) : String := o.map.dest

/-- Where a byte of the linked text came from. The linker's separators have no location,
since `<linker>` is not among the sources. -/
def locate? (o : LinkOutput) (offset : Nat) : Option SourceLocation := do
  let p ← o.map.destToSrc? offset
  let text ← o.sources.lookup p.src
  let (line, column) := Text.lineColumn text.toList p.offset
  pure ⟨p.src, p.offset, line, column⟩

/-- The offsets a linked text is located at by default: its start and every line start. -/
def lineStarts (o : LinkOutput) : List Nat :=
  let (_, starts) := o.text.toList.foldl (fun (pos, acc) c =>
    let pos := pos + c.utf8Size
    (pos, if c == '\n' then pos :: acc else acc)) (0, [0])
  starts.reverse

end LinkOutput

end ShaderLink
