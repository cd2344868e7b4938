import ShaderLink.Text.Span

/-!
# Lexical scopes

A module's names live in a tree of scopes: the module scope at the root, one body scope per
top-level declaration (its signature and body), and block scopes nested inside. Scopes and
identifiers are numbered in the order they are created; every scope but the root has a parent
created before it.

An identifier either declares a name or refers to one. `bindAll` binds every reference of a
single segment that is not bound yet to the nearest declaration of its name: looking outward
from the reference's scope, in each scope the latest declaration that is visible wins. In a
module scope every declaration is visible, even one made later; elsewhere only declarations
made before the reference.
-/

namespace ShaderLink

/-- What a scope belongs to. -/
inductive ScopeKind where
  | module
  | body
  | block
deriving DecidableEq, Repr, Inhabited

/-- Whether an identifier declares a name or refers to one. -/
inductive IdentKind where
  | decl
  | ref
deriving DecidableEq, Repr, Inhabited

/-- One scope: its kind, its parent, and the identifiers and scopes created in it. -/
structure Scope where
  kind : ScopeKind
  parent : Option Nat
  idents : Array Nat
  children : Array Nat
deriving DecidableEq, Repr, Inhabited

/-- One identifier. A reference through a module path records its last segment as `name`
and the number of segments. -/
structure Ident where
  kind : IdentKind
  name : String
  segments : Nat
  span : Span
  scope : Nat
  /-- The declaration a reference is bound to. -/
  binding : Option Nat
deriving DecidableEq, Repr, Inhabited

/-- The scopes and identifiers of a module. -/
structure ScopeTree where
  scopes : Array Scope
  idents : Array Ident
deriving DecidableEq, Repr, Inhabited

namespace ScopeTree

/-- A tree with only the module scope. -/
def empty : ScopeTree := ⟨#[⟨.module, none, #[], #[]⟩], #[]⟩

/-- The root scope. -/
def root : Nat := 0

/-- Whether `s` numbers a scope of the tree. -/
def hasScope (t : ScopeTree) (s : Nat) : Bool := s < t.scopes.size

/-- Whether `i` numbers an identifier of the tree. -/
def hasIdent (t : ScopeTree) (i : Nat) : Bool := i < t.idents.size

/-- Opens a new scope of the given kind inside `parent`, returning its number. -/
def pushScope (t : ScopeTree) (parent : Nat) (kind : ScopeKind) : ScopeTree × Nat :=
  let id := t.scopes.size
  let scopes := (t.scopes.push ⟨kind, some parent, #[], #[]⟩).modify parent fun s =>
    { s with children := s.children.push id }
  (⟨scopes, t.idents⟩, id)

/-- Adds an identifier to `scope`, returning its number. -/
def addIdent (t : ScopeTree) (scope : Nat) (kind : IdentKind) (name : String)
    (segments : Nat) (span : Span) : ScopeTree × Nat :=
  let id := t.idents.size
  let scopes := t.scopes.modify scope fun s => { s with idents := s.idents.push id }
  (⟨scopes, t.idents.push ⟨kind, name, segments, span, scope, none⟩⟩, id)

/-- The declaration of `name` that a reference numbered `before` sees in one scope: the latest
matching declaration, where only those made before the reference count outside a module
scope. -/
def visibleIn (t : ScopeTree) (s : Scope) (name : String) (before : Nat) : Option Nat :=
  s.idents.toList.reverse.find? fun i =>
    match t.idents[i]? with
    | some d => d.kind == .decl && d.name == name && (s.kind == .module || i < before)
    | none => false

/-- Looks for a visible declaration of `name` from scope `s` outward, through at most
`fuel` scopes. -/
def findDeclFrom (t : ScopeTree) (name : String) (before : Nat) : Nat → Nat → Option Nat
  | 0, _ => none
  | fuel + 1, s =>
    match t.scopes[s]? with
    | none => none
    | some sc =>
      match t.visibleIn sc name before with
      | some d => some d
      | none =>
        match sc.parent with
        | some p => t.findDeclFrom name before fuel p
        | none => none

/-- The declaration a reference numbered `i` in scope `s` binds to. Every scope's parent was
created before it, so the walk outward visits each scope at most once. -/
def findDecl (t : ScopeTree) (s : Nat) (name : String) (i : Nat) : Option Nat :=
  t.findDeclFrom name i t.scopes.size s

/-- The binding an identifier gets from `bindAll`: unchanged for declarations, references of
several segments and references already bound. -/
def bindingOf (t : ScopeTree) (i : Nat) (x : Ident) : Option Nat :=
  if x.kind == .ref && x.segments == 1 && x.binding.isNone then t.findDecl x.scope x.name i
  else x.binding

/-- Binds every unbound single-segment reference to the declaration it sees. -/
def bindAll (t : ScopeTree) : ScopeTree :=
  { t with idents := t.idents.mapIdx fun i x => { x with binding := t.bindingOf i x } }

/-- The names declared outside the module scope (parameters, local variables), in order. -/
def localDeclNames (t : ScopeTree) : List String :=
  (t.idents.toList.filter fun x => x.kind == .decl && x.scope != root).map (·.name)

/-- Whether an identifier belongs to the module scope. -/
def isGlobal (t : ScopeTree) (i : Nat) : Bool :=
  match t.idents[i]? with
  | some x => x.scope == root
  | none => false

end ScopeTree

end ShaderLink
