import ShaderLink.Module.Parsed

/-!
# Looking things up in a parsed module

The declarations of a module with their element indices, the first declaration or export of a
name, the leaves of its imports with the span of the import they come from, the references
inside a declaration, and warnings placed in the module's source text.
-/

namespace ShaderLink

namespace ParsedModule

/-- The top-level declarations with their element indices, in order. -/
def decls (m : ParsedModule) : List (Nat × Declaration) :=
  (m.elems.toList.zipIdx.filterMap fun (e, i) => (e.asDecl?).map (i, ·))

/-- The declaration at an element index. -/
def decl? (m : ParsedModule) (i : Nat) : Option Declaration := (m.elems[i]?).bind Element.asDecl?

/-- The first declaration of a name. -/
def findDecl? (m : ParsedModule) (name : String) : Option (Nat × Declaration) :=
  m.decls.find? fun (_, d) => d.name == name

/-- The exported declarations, in order. -/
def exports (m : ParsedModule) : List (Nat × Declaration) := m.decls.filter (·.2.exported)

/-- The first exported declaration of a name. -/
def findExport? (m : ParsedModule) (name : String) : Option (Nat × Declaration) :=
  m.exports.find? fun (_, d) => d.name == name

/-- The leaves of all imports, each with the span of its import, in order. -/
def importLeaves (m : ParsedModule) : List (Span × ImportLeaf) :=
  m.elems.toList.flatMap fun
    | .importItem span tree _ => tree.leaves.map (span, ·)
    | _ => []

/-- The references among the children of a declaration. -/
def references (m : ParsedModule) (d : Declaration) : List Reference :=
  ((m.elems.toList.drop d.childStart).take (d.childStop - d.childStart)).filterMap Element.asRef?

/-- The name of the conditioned text, which the module's spans point into. -/
def textId (m : ParsedModule) : String := m.map.id

/-- The bytes of the conditioned text a span covers. -/
def spanText (m : ParsedModule) (s : Span) : String := (Text.sliceString? m.text s).getD ""

/-- The source offset of an offset of the conditioned text. -/
def sourceOffset (m : ParsedModule) (offset : Nat) : Nat :=
  ((m.map.destToSrc? offset).map (·.offset)).getD offset

/-- A warning about an offset of the conditioned text, placed in the source text. -/
def warning (m : ParsedModule) (offset : Nat) (message : String) : Warning :=
  Warning.at m.sourceId m.source (m.sourceOffset offset) message

end ParsedModule

end ShaderLink
