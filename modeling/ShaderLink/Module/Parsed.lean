import ShaderLink.Parse.Unit
import ShaderLink.Parse.Report
import ShaderLink.Edit.Conditional
import ShaderLink.Scope
import ShaderLink.Module.Path

/-!
# Parsed modules

`parseModule text path options` applies the `#if` conditions to a module's text, parses what
is left, and builds the module's elements and scopes. All spans of the elements point into
the conditioned text; the module keeps the map from it back to the source.

Module-level declarations are entered into the module scope first, so they are visible
everywhere. Without any `#export` line or `export` keyword a module exports every declaration;
otherwise a declaration is exported when it carries the keyword or follows an `#export` line,
whose parameters it takes. A `module` line names the module; otherwise the file path does.
-/

namespace ShaderLink

/-- How modules are parsed: the values of `#if` conditions and the token budget. -/
structure ParseOptions where
  conditions : Conditions
  budget : Nat
deriving Inhabited

/-- One parsed module. -/
structure ParsedModule where
  path : ModulePath
  /-- The name of the source text. -/
  sourceId : String
  /-- The text as written. -/
  source : String
  /-- The text after `#if` processing, which all spans point into. -/
  text : String
  /-- From `text` back to `source`. -/
  map : SourceMap
  elems : Array Element
  scopes : ScopeTree
  warnings : List Warning
  exportsAll : Bool
deriving Inhabited

/-- The elements and scopes built from the items of a module, with the warnings about
positions of the parsed text and the declared module path. -/
structure Assembly where
  elems : Array Element
  scopes : ScopeTree
  warnings : Array (Span × String)
  path : Option (List String)
  /-- An `#export` line waiting for its declaration. -/
  pendingExport : Option (Span × List String)
  /-- The module-scope identifiers of the declarations still to come. -/
  declIdents : List Nat

namespace Assembly

/-- The state of a declaration's events: the tree, the elements, and the open scopes,
innermost first. -/
structure EventState where
  scopes : ScopeTree
  elems : Array Element
  stack : List Nat

/-- Applies one scope event inside the body scope `body`. -/
def applyEvent (body : Nat) (st : EventState) : ScopeEvent → EventState
  | .declare name span =>
    let current := st.stack.headD body
    { st with scopes := (st.scopes.addIdent current .decl name 1 span).1 }
  | .reference path span kind =>
    let current := st.stack.headD body
    let (scopes, ident) := st.scopes.addIdent current .ref (path.getLast?.getD "") path.length span
    { st with scopes, elems := st.elems.push (.ref ⟨kind, path, span, ident⟩) }
  | .openBlock =>
    let current := st.stack.headD body
    let (scopes, b) := st.scopes.pushScope current .block
    { st with scopes, stack := b :: st.stack }
  | .closeBlock =>
    match st.stack with
    | _ :: rest@(_ :: _) => { st with stack := rest }
    | _ => st
  | .member name span => { st with elems := st.elems.push (.member name span) }

/-- Adds a declaration, its body scope and the elements inside it. -/
def addDecl (a : Assembly) (d : DeclSyntax) (ident : Nat) (exported : Bool)
    (params : List String) : Assembly :=
  let (scopes, body) := a.scopes.pushScope ScopeTree.root .body
  let index := a.elems.size
  let start : EventState := ⟨scopes, a.elems.push (.text d.span), [body]⟩
  let st := d.events.foldl (applyEvent body) start
  let decl : Declaration :=
    ⟨d.kind, d.name, ident, d.nameSpan, d.span, body, exported, params, index + 1, st.elems.size⟩
  { a with scopes := st.scopes, elems := st.elems.set! index (.decl decl) }

/-- The warning about an `#export` line with no declaration after it. -/
def unusedExport (span : Span) : Span × String := (span, "#export is not followed by a declaration")

/-- Adds one item. -/
def addItem (exportsAll : Bool) (a : Assembly) : Item → Assembly
  | .moduleLine path span => { a with elems := a.elems.push (.moduleLine span path), path := some path }
  | .importItem tree dialect span => { a with elems := a.elems.push (.importItem span tree dialect) }
  | .exportItem params span =>
    let warnings := match a.pendingExport with
      | some (unused, _) => a.warnings.push (unusedExport unused)
      | none => a.warnings
    { a with
      warnings
      elems := a.elems.push (.exportItem span params)
      pendingExport := some (span, params) }
  | .text span => { a with elems := a.elems.push (.text span) }
  | .decl d =>
    match a.declIdents with
    | [] => a
    | ident :: rest =>
      let elems := match d.exportKeyword with
        | some kw => a.elems.push (.exportItem ⟨kw.start, d.span.start⟩ [])
        | none => a.elems
      let exported := exportsAll || a.pendingExport.isSome || d.exportKeyword.isSome
      let params := (a.pendingExport.map (·.2)).getD []
      addDecl { a with elems, pendingExport := none, declIdents := rest } d ident exported params

/-- Whether a module exports all its declarations: it has no `#export` line and no
`export` keyword. -/
def exportsAllOf (items : List Item) : Bool :=
  !items.any fun
    | .exportItem _ _ => true
    | .decl d => d.exportKeyword.isSome
    | _ => false

/-- The module-scope identifiers of the declarations, entered before anything else. -/
def declareAll (t : ScopeTree) : List Item → ScopeTree × List Nat
  | [] => (t, [])
  | .decl d :: items =>
    let (t, i) := t.addIdent ScopeTree.root .decl d.name 1 d.nameSpan
    let (t, is) := declareAll t items
    (t, i :: is)
  | _ :: items => declareAll t items

/-- Builds the elements and scopes of a module from its items and the grammar's warnings. -/
def build (items : List Item) (notes : Array (Span × String)) : Assembly × Bool :=
  let (scopes, idents) := declareAll ScopeTree.empty items
  let exportsAll := exportsAllOf items
  let a := items.foldl (addItem exportsAll) ⟨#[], scopes, notes, none, none, idents⟩
  let a := match a.pendingExport with
    | some (unused, _) => { a with warnings := a.warnings.push (unusedExport unused) }
    | none => a
  ({ a with scopes := a.scopes.bindAll }, exportsAll)

end Assembly

/-- How much fuel the recursive grammar rules get for a text: more than the number of nested
rules and loop rounds that reading it can take. -/
def grammarFuel (text : String) : Nat := 4 * (text.length + 2)

/-- Parses a module. `path` names it, like `lib/util.wgsl`; a `module` line in the text takes
precedence. The `#if` conditions are applied first. -/
def parseModule (text path : String) (options : ParseOptions) :
    Except ParseReport ParsedModule :=
  let conditioned := applyConditions text path options.conditions
  let parsed := conditioned.map.dest
  match Grammar.topLevel (grammarFuel parsed) options.budget (Cursor.start parsed) with
  | .error f c =>
    .error (ParseReport.ofFailure path text conditioned.map options.budget c.furthest f)
  | .ok items c =>
    let (a, exportsAll) := Assembly.build items c.notes
    let located := a.warnings.toList.map fun (span, message) =>
      let offset := ((conditioned.map.destToSrc? span.start).map (·.offset)).getD span.start
      Warning.at path text offset message
    .ok { path := (a.path.map ModulePath.mk).getD (ModulePath.ofFilePath path)
          sourceId := path
          source := text
          text := parsed
          map := conditioned.map
          elems := a.elems
          scopes := a.scopes
          warnings := conditioned.warnings ++ located
          exportsAll }

end ShaderLink
