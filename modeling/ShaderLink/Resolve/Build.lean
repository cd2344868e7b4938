import ShaderLink.Resolve.Map
import ShaderLink.Registry
import ShaderLink.Link.Error

/-!
# Building a module's resolve map

Each leaf of a module's imports becomes an import entry, and the exports it could refer to
enter the export table. A leaf path is first made absolute against the importing module; one
that climbs above the root is dropped with a warning.

A wildcard enters all exports of its module. Any other leaf enters its path both as a single
item (a generator or an exported declaration) and as a module whose exports are all entered,
since `import util;` may name either. A bare name that is neither is looked for in the
importing module, then in the modules its other imports name, then in the one module of the
registry that exports it, if there is only one. What stays missing is reported. A module that
failed to parse is an error as soon as a leaf looks into it.
-/

namespace ShaderLink

/-- The resolve map being built, and the warnings so far. -/
structure MapBuilder where
  map : ResolveMap
  warnings : Array Warning

/-- Building a resolve map: a state, and link errors. -/
abbrev BuildM := StateT MapBuilder (Except LinkError)

namespace MapBuilder

/-- Fails when the last parse of the module at `p` failed. -/
def checkParsed (reg : Registry) (p : ModulePath) : BuildM Unit :=
  match reg.parseFailure? p with
  | some e => throw (.parse p e)
  | none => pure ()

/-- Records an export. -/
def record (path : List String) (t : ExportTarget) : BuildM Unit :=
  modify fun b => { b with map := b.map.insertExport path t }

/-- Records a warning about the import at `span` of `module`. -/
def warn (module : ParsedModule) (span : Span) (message : String) : BuildM Unit :=
  modify fun b => { b with warnings := b.warnings.push (module.warning span.start message) }

/-- Enters `path` as a single generator or exported declaration; whether it is one. -/
def addItem (reg : Registry) (path : List String) : BuildM Bool := do
  match path.getLast? with
  | none => pure false
  | some name =>
    let mp : ModulePath := ⟨path.dropLast⟩
    checkParsed reg mp
    match reg.generator? mp name with
    | some g =>
      record path (.generator g.module g.name)
      pure true
    | none =>
      match reg.module? mp with
      | none => pure false
      | some m =>
        match m.findExport? name with
        | some (i, _) =>
          record path (.decl mp i)
          pure true
        | none => pure false

/-- Enters every export of the module at `path`; whether the module exists or has
generators. -/
def addModuleExports (reg : Registry) (path : List String) : BuildM Bool := do
  let mp : ModulePath := ⟨path⟩
  checkParsed reg mp
  let gens := reg.generatorsOf mp
  for g in gens do
    record (path ++ [g.name]) (.generator g.module g.name)
  match reg.module? mp with
  | none => pure !gens.isEmpty
  | some m =>
    for (i, d) in m.exports do
      record (path ++ [d.name]) (.decl mp i)
    pure true

/-- The modules a bare import is looked for in: the importing module, then the module that
each import leaf names. -/
def bareCandidates (module : ParsedModule) (leaves : List (Span × ImportLeaf)) :
    List ModulePath :=
  module.path :: leaves.filterMap fun (_, leaf) =>
    (module.path.resolveRelative leaf.path).bind fun abs =>
      if leaf.wildcard then some ⟨abs⟩
      else if 1 < abs.length then some ⟨abs.dropLast⟩
      else none

/-- Looks for a bare imported name: in the first candidate module that exports it, or in the
only module of the registry that does. -/
def searchBare (reg : Registry) (module : ParsedModule) (name : String)
    (leaves : List (Span × ImportLeaf)) : BuildM (Option (List String)) := do
  let exporters := reg.exporters name
  let found := ((bareCandidates module leaves).find? exporters.contains).or
    (match exporters with
      | [only] => some only
      | _ => none)
  match found with
  | none => pure none
  | some mp =>
    let path := mp.segments ++ [name]
    let _ ← addItem reg path
    pure (some path)

/-- The warning about an import that names nothing. -/
def missingMessage (reg : Registry) (path : List String) : String :=
  match path.getLast?, path.dropLast with
  | some name, init@(_ :: _) =>
    let m : ModulePath := ⟨init⟩
    if (reg.module? m).isSome then "module `" ++ m.render ++ "` has no export `" ++ name ++ "`"
    else "module `" ++ m.render ++ "` not found, `" ++ name ++ "` stays unresolved"
  | _, _ => "cannot find `" ++ "/".intercalate path ++ "` in any module"

/-- Adds one import leaf. -/
def addLeaf (reg : Registry) (module : ParsedModule) (leaves : List (Span × ImportLeaf))
    (span : Span) (leaf : ImportLeaf) : BuildM Unit := do
  match module.path.resolveRelative leaf.path with
  | none => warn module span ("import `" ++ "/".intercalate leaf.path ++ "` leaves the root")
  | some abs =>
    if leaf.wildcard then
      if !(← addModuleExports reg abs) then
        warn module span ("module `" ++ (ModulePath.mk abs).render ++ "` not found")
      modify fun b => { b with
        map.paths := b.map.paths.push ⟨leaf.asName.toList, abs, none, span⟩ }
    else
      let plain := leaf.path.filter fun s => s != "." && s != ".."
      let visible := match leaf.asName with
        | some a => if plain.isEmpty then plain else plain.dropLast ++ [a]
        | none => plain
      let asItem ← addItem reg abs
      let asModule ← addModuleExports reg abs
      let mut found := asItem || asModule
      let mut exportPath := abs
      if !found && leaf.path.length == 1 then
        if let some path ← searchBare reg module (leaf.path.headD "") leaves then
          exportPath := path
          found := true
      if !found then warn module span (missingMessage reg exportPath)
      modify fun b => { b with
        map.paths := b.map.paths.push ⟨visible, exportPath, leaf.args, span⟩ }

end MapBuilder

/-- The resolve map of a module and the warnings about its imports. -/
def buildResolveMap (reg : Registry) (module : ParsedModule) :
    Except LinkError (ResolveMap × List Warning) := do
  let leaves := module.importLeaves
  let run : BuildM Unit := leaves.forM fun (span, leaf) => MapBuilder.addLeaf reg module leaves span leaf
  let ((), b) ← run.run ⟨ResolveMap.empty, #[]⟩
  pure (b.map, b.warnings.toList)

end ShaderLink
