import ShaderLink.Syntax.ImportTree
import ShaderLink.Text.Span

/-!
# Elements of a parsed module

A parsed module is a list of elements in source order. At the top level stand the module
line, imports, exports, declarations and pass-through text such as `enable f16;`. Each
declaration is followed by the elements found inside it: references to other names, and the
members of a structure. A declaration records the index range of those children.

Inside a declaration, the grammar reports *scope events*: a name declared, a name used, a
block opened or closed, a member. They are turned into scopes and elements once the
declaration is complete.
-/

namespace ShaderLink

/-- What a declaration declares. -/
inductive DeclKind where
  | function
  | struct
  | var
  | const
  | override
  | typeAlias
deriving DecidableEq, Repr, Inhabited

/-- How a name is used: called, as a type, or as a value. -/
inductive RefKind where
  | call
  | type
  | value
deriving DecidableEq, Repr, Inhabited

/-- Which spelling an import uses: `#import foo from bar`, or `import bar/foo;`. -/
inductive ImportDialect where
  | directive
  | tree
deriving DecidableEq, Repr, Inhabited

/-- A top-level declaration. -/
structure Declaration where
  kind : DeclKind
  name : String
  /-- The identifier that declares the name in the module scope. -/
  ident : Nat
  nameSpan : Span
  /-- The whole declaration, attributes included. -/
  span : Span
  /-- The body scope, holding signature and body. -/
  scope : Nat
  exported : Bool
  /-- Template parameters from `#export(A, B)`. -/
  params : List String
  /-- The elements inside the declaration are those with index in `[childStart, childStop)`. -/
  childStart : Nat
  childStop : Nat
deriving DecidableEq, Repr, Inhabited

/-- A use of a name, `foo`, or a module path, `util::foo` (also `util.foo(` for a call). -/
structure Reference where
  kind : RefKind
  path : List String
  /-- Covers the whole path. -/
  span : Span
  ident : Nat
deriving DecidableEq, Repr, Inhabited

/-- One element of a parsed module. -/
inductive Element where
  | moduleLine (span : Span) (path : List String)
  | importItem (span : Span) (tree : ImportTree) (dialect : ImportDialect)
  | exportItem (span : Span) (params : List String)
  | decl (d : Declaration)
  | member (name : String) (span : Span)
  | ref (r : Reference)
  | text (span : Span)
deriving Repr, Inhabited

namespace Element

/-- The bytes an element covers. -/
def span : Element → Span
  | moduleLine s _ => s
  | importItem s _ _ => s
  | exportItem s _ => s
  | decl d => d.span
  | member _ s => s
  | ref r => r.span
  | text s => s

/-- The declaration an element is, if it is one. -/
def asDecl? : Element → Option Declaration
  | decl d => some d
  | _ => none

/-- The reference an element is, if it is one. -/
def asRef? : Element → Option Reference
  | ref r => some r
  | _ => none

end Element

/-- What the grammar reports inside a declaration, in source order. -/
inductive ScopeEvent where
  | declare (name : String) (span : Span)
  | reference (path : List String) (span : Span) (kind : RefKind)
  | openBlock
  | closeBlock
  | member (name : String) (span : Span)
deriving DecidableEq, Repr, Inhabited

/-- A top-level declaration as the grammar reads it, before scopes are built. -/
structure DeclSyntax where
  kind : DeclKind
  name : String
  nameSpan : Span
  span : Span
  /-- The `export` keyword in front, if any. -/
  exportKeyword : Option Span
  events : Array ScopeEvent
deriving Inhabited

/-- A top-level item as the grammar reads it. -/
inductive Item where
  | moduleLine (path : List String) (span : Span)
  | importItem (tree : ImportTree) (dialect : ImportDialect) (span : Span)
  | exportItem (params : List String) (span : Span)
  | decl (d : DeclSyntax)
  | text (span : Span)
deriving Inhabited

end ShaderLink
