import ShaderLink.Resolve.Build
import ShaderLink.Edit.Splice
import ShaderLink.Link.Fresh

/-!
# Instances

Linking emits *instances*: a declaration or generator together with values for its
parameters. Each instance is emitted once, under an output name. The root module's
declarations keep their names; every other instance takes the first free variant of its
declaration's name, free meaning unused by the root's declarations, by any local name of any
module (so that a renamed reference is never captured by a local), and by earlier instances.

Starting from the root's declarations, each instance is *visited* in turn: its references are
linked, which may create further instances, and the renames that its text needs are recorded.
A reference bound to a local declaration stays as written; one bound to a module-level
declaration links to that declaration with the same parameter values; any other reference
goes through the module's imports, where import arguments, then the link's parameters, then a
generator's defaults give the new instance's parameter values.
-/

namespace ShaderLink

/-- What a link is asked to do beyond its root: parameter values that imports leave open,
and whether every declaration of every contributing module is included. -/
structure LinkOptions where
  params : List (String × String)
  wholeFile : Bool
deriving Inhabited

/-- A declaration or generator with fixed parameter values. -/
structure InstanceKey where
  target : ExportTarget
  args : List (String × String)
deriving DecidableEq, Repr, Inhabited

/-- An instance: its key, its output name, and the renames its text needs. -/
structure Instance where
  key : InstanceKey
  name : String
  renames : List Splice
deriving Inhabited

/-- The state of a link. -/
structure Linker where
  /-- In order of creation. -/
  instances : Array Instance
  usedNames : NameSet
  /-- Resolve maps built so far, by module. -/
  resolveMaps : List (ModulePath × ResolveMap)
  /-- Modules that contribute declarations, in the order they were reached. -/
  modules : Array ModulePath
  warnings : Array Warning

/-- What a link reads: the registry, the root and the options. -/
structure LinkContext where
  registry : Registry
  root : ModulePath
  options : LinkOptions

/-- A step of a link: reads the context, changes the linker, may fail. -/
abbrev LinkM := ReaderT LinkContext (StateT Linker (Except LinkFailure))

namespace Linker

/-- Fails with a link error. -/
def fail {α : Type} (e : LinkError) : LinkM α := throw (.error e)

/-- The module of a path, which every target of the link has. -/
def moduleAt (p : ModulePath) : LinkM ParsedModule := do
  pure (((← read).registry.module? p).getD default)

/-- Records a warning. -/
def warn (w : Warning) : LinkM Unit :=
  modify fun l => { l with warnings := l.warnings.push w }

/-- The resolve map of a module, built and its warnings recorded on first use. -/
def resolveMap (p : ModulePath) : LinkM ResolveMap := do
  match (← get).resolveMaps.lookup p with
  | some m => pure m
  | none =>
    let module ← moduleAt p
    match buildResolveMap (← read).registry module with
    | .error e => fail e
    | .ok (m, ws) =>
      modify fun l => { l with
        resolveMaps := (p, m) :: l.resolveMaps
        warnings := l.warnings ++ ws.toArray }
      pure m

/-- The name an instance of `target` starts from: its declaration's or generator's name. -/
def baseName (reg : Registry) : ExportTarget → String
  | .decl m i => (((reg.module? m).bind (·.decl? i)).map (·.name)).getD ""
  | .generator _ name => name

/-- The output name of an instance, creating it if it is new; also the module that the new
instance brings into the link, if any. -/
def ensureInstance (key : InstanceKey) : LinkM (String × Option ModulePath) := do
  let l ← get
  match l.instances.find? (·.key == key) with
  | some i => pure (i.name, none)
  | none =>
    let (name, usedNames) := fresh l.usedNames (baseName (← read).registry key.target)
    let reached := match key.target with
      | .decl m _ => if l.modules.contains m then none else some m
      | .generator _ _ => none
    set { l with
      instances := l.instances.push ⟨key, name, []⟩
      usedNames
      modules := match reached with
        | some m => l.modules.push m
        | none => l.modules }
    pure (name, reached)

/-- The output name of an instance, creating it if it is new. With `wholeFile`, a module
that the instance brings into the link contributes an instance of each of its declarations. -/
def instanceName (target : ExportTarget) (args : List (String × String)) : LinkM String := do
  let (name, reached) ← ensureInstance ⟨target, args⟩
  if let some m := reached then
    if (← read).options.wholeFile then
      for (i, _) in (← moduleAt m).decls do
        let _ ← ensureInstance ⟨.decl m i, []⟩
  pure name

/-- An import argument as the importing module sees it: a parameter value of the instance
being visited, an instance of a declaration of the importer, an instance of what the
argument resolves to through an import without arguments, or else the argument as written. -/
def argValue (importer : ModulePath) (callerArgs : List (String × String)) (arg : String) :
    LinkM String := do
  match callerArgs.find? (·.1 == arg) with
  | some (_, v) => pure v
  | none =>
    match (← moduleAt importer).findDecl? arg with
    | some (i, _) => instanceName (.decl importer i) callerArgs
    | none =>
      match (← resolveMap importer).resolve [arg] with
      | .found target _ none => instanceName target []
      | _ => pure arg

/-- The parameter values of a new instance of `target`, for each parameter in turn: the import
argument at its position, else the link's parameter of its name, else its default.
A generator parameter without a value is reported and takes its own name. -/
def instanceArgs (importer : ModulePath) (callerArgs : List (String × String))
    (target : ExportTarget) (importArgs : Option (List String)) (span : Span) :
    LinkM (List (String × String)) := do
  let ctx ← read
  let (params, isGenerator) : List (String × Option String) × Bool := match target with
    | .decl m i =>
      ((((ctx.registry.module? m).bind (·.decl? i)).map fun d => d.params.map (·, none)).getD [],
        false)
    | .generator m n => (((ctx.registry.generator? m n).map (·.params)).getD [], true)
  let mut args : Array (String × String) := #[]
  for ((param, default), position) in params.zipIdx do
    let value ← match importArgs.bind (·[position]?) with
      | some arg => some <$> argValue importer callerArgs arg
      | none => pure ((ctx.options.params.reverse.lookup param).or default)
    match value with
    | some v => args := args.push (param, v)
    | none =>
      if isGenerator then
        let module ← moduleAt importer
        warn (module.warning span.start ("no value for generator parameter `" ++ param ++ "`"))
        args := args.push (param, param)
  pure args.toList

/-- The output name of what a reference refers to, or nothing when it stays as written. -/
def linkReference (p : ModulePath) (args : List (String × String)) (r : Reference) :
    LinkM (Option String) := do
  let module ← moduleAt p
  match (module.scopes.idents[r.ident]?).bind (·.binding) with
  | some b =>
    if !module.scopes.isGlobal b then return none
    match module.decls.find? (·.2.ident == b) with
    | none => return none
    | some (i, _) => return some (← instanceName (.decl p i) args)
  | none =>
    if let [name] := r.path then
      if args.any (·.1 == name) then return none
    match (← resolveMap p).resolve r.path with
    | .found target _ importArgs =>
      let ia ← instanceArgs p args target importArgs r.span
      return some (← instanceName target ia)
    | .unresolved =>
      if 1 < r.path.length then
        warn (module.warning r.span.start ("unresolved reference `" ++ "::".intercalate r.path ++ "`"))
      return none
    | .ambiguous cs => fail (.ambiguousImport module.path ("::".intercalate r.path) cs)

/-- Links the references of the declaration behind `inst`, the instance at `index`, and
records the renames its text needs. -/
def visitInstance (index : Nat) (inst : Instance) : LinkM Unit := do
  match inst.key.target with
  | .generator _ _ => pure ()
  | .decl p i =>
    let module ← moduleAt p
    let some d := module.decl? i | pure ()
    let mut renames : Array Splice := #[]
    if inst.name != d.name then renames := renames.push ⟨d.nameSpan, inst.name⟩
    for r in module.references d do
      if let some linked ← linkReference p inst.key.args r then
        if linked != module.spanText r.span then renames := renames.push ⟨r.span, linked⟩
    modify fun l => { l with
      instances := l.instances.modify index fun x => { x with renames := renames.toList } }

/-- Visits the instance at `index`: links its references and records its renames. -/
def visit (index : Nat) : LinkM Unit := do
  let some inst := (← get).instances[index]? | pure ()
  visitInstance index inst

/-- Starts a link: the root's declarations as instances under their own names, the names
that other instances must avoid, and the root's resolve map. -/
def seed : LinkM Unit := do
  let ctx ← read
  let root ← moduleAt ctx.root
  let rootNames := root.decls.map (·.2.name)
  let localNames := ctx.registry.modules.flatMap (·.scopes.localDeclNames)
  set ({ instances := (root.decls.map fun (i, d) => ⟨⟨.decl ctx.root i, []⟩, d.name, []⟩).toArray
         usedNames := Std.TreeSet.ofList (rootNames ++ localNames) compare
         resolveMaps := []
         modules := #[ctx.root]
         warnings := #[] } : Linker)
  let _ ← resolveMap ctx.root

/-- Visits the instances from `next` on, as long as new ones appear, at most `fuel` of them. -/
def visitFrom : Nat → Nat → LinkM Unit
  | 0, _ => pure ()
  | fuel + 1, next => do
    if next < (← get).instances.size then
      visit next
      visitFrom fuel (next + 1)

end Linker

end ShaderLink
