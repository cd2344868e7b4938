import ShaderLink.Resolve.Overlap
import ShaderLink.Module.Path
import ShaderLink.Text.Span

/-!
# Resolve maps

The imports of a module, ready to resolve references. Each import entry pairs the path under
which an item is visible in the importing module (its alias applied) with the absolute path
of what it imports; the export table maps absolute paths to what they name.

A reference `r` is matched against every entry: an entry with an empty import path (a
wildcard without alias) passes `r` through whole, any other entry passes the rest of `r`
after their longest overlap (`overlapTail?`). The entry is viable when its export path
followed by that rest is in the table. Entries with longer overlaps win; when the winners
disagree on the target, the reference is ambiguous.
-/

namespace ShaderLink

/-- What an export path names: a declaration of a module, by element index, or a
generator. -/
inductive ExportTarget where
  | decl (module : ModulePath) (index : Nat)
  | generator (module : ModulePath) (name : String)
deriving DecidableEq, Repr, Inhabited

/-- One imported item. -/
structure ImportEntry where
  /-- The path as the importing module sees it, with the alias applied. -/
  importPath : List String
  /-- The absolute path of what is imported. -/
  exportPath : List String
  args : Option (List String)
  /-- The import it comes from. -/
  span : Span
deriving DecidableEq, Repr, Inhabited

/-- The imports of one module and every export they could refer to. -/
structure ResolveMap where
  paths : Array ImportEntry
  /-- In order of first insertion; no two share a path. -/
  exports : Array (List String × ExportTarget)
deriving Inhabited

/-- What a reference resolves to. -/
inductive Resolution where
  | found (target : ExportTarget) (exportPath : List String) (args : Option (List String))
  /-- Not imported: an external name, like a builtin. -/
  | unresolved
  /-- Several imports match equally well; their export paths, joined by `::`. -/
  | ambiguous (candidates : List String)
deriving DecidableEq, Repr, Inhabited

namespace ResolveMap

/-- An empty map. -/
def empty : ResolveMap := ⟨#[], #[]⟩

/-- The target of an export path. -/
def lookup? (m : ResolveMap) (path : List String) : Option ExportTarget :=
  (m.exports.find? (·.1 == path)).map (·.2)

/-- Records an export, keeping the position of an earlier one of the same path. -/
def insertExport (m : ResolveMap) (path : List String) (t : ExportTarget) : ResolveMap :=
  if m.exports.any (·.1 == path) then
    { m with exports := m.exports.map fun e => if e.1 == path then (path, t) else e }
  else { m with exports := m.exports.push (path, t) }

/-- The viable matches of a reference, with the length of their overlap. -/
def viableMatches (m : ResolveMap) (reference : List String) :
    List (Nat × ExportTarget × List String × Option (List String)) :=
  m.paths.toList.filterMap fun e =>
    let rest? := if e.importPath.isEmpty then some reference else overlapTail? e.importPath reference
    rest?.bind fun rest =>
      let exportPath := e.exportPath ++ rest
      (m.lookup? exportPath).map fun t => (reference.length - rest.length, t, exportPath, e.args)

/-- Drops repeated neighbours. -/
def dedupAdjacent : List String → List String
  | a :: b :: rest => if a == b then dedupAdjacent (b :: rest) else a :: dedupAdjacent (b :: rest)
  | l => l

/-- Finds what a reference like `foo` or `util::foo` refers to. -/
def resolve (m : ResolveMap) (reference : List String) : Resolution :=
  let viable := m.viableMatches reference
  let best := viable.foldl (fun b (k, _) => max b k) 0
  match viable.filter (·.1 == best) with
  | [] => .unresolved
  | (_, t, path, args) :: rest =>
    if rest.all (·.2.1 == t) then .found t path args
    else .ambiguous (dedupAdjacent ((((0, t, path, args) :: rest).map fun (_, _, p, _) => "::".intercalate p)))

end ResolveMap

end ShaderLink
