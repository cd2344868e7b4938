import ShaderLink.Module.Query

/-!
# The module registry

The registry holds every module that can take part in a link, by path; the parse failure of
each path whose last parse failed; and generators, declarations made at link time from a
template instead of parsed from a module.

Adding a source parses it. On success the module replaces any module of the same path and
clears the path's failure. On failure the path the text declares for itself (or else its file
path) loses its module and records the failure, so that linking against it reports the error.
-/

namespace ShaderLink

namespace Text

/-- Replaces every occurrence of `pat`, left to right and without overlaps. -/
def replaceAll (pat rep : List Char) : List Char → List Char
  | [] => []
  | c :: cs =>
    if !pat.isEmpty && pat.isPrefixOf (c :: cs) then
      rep ++ replaceAll pat rep (cs.drop (pat.length - 1))
    else c :: replaceAll pat rep cs
termination_by cs => cs.length
decreasing_by
  · simp only [List.length_drop, List.length_cons]
    omega
  · simp only [List.length_cons]
    omega

end Text

/-- Pairs collected into a map that keeps each key at its first position with its last
value. -/
def collectLast : List (String × String) → List (String × String)
  | [] => []
  | (k, v) :: rest =>
    let later := collectLast rest
    match later.lookup k with
    | some w => (k, w) :: later.filter (·.1 != k)
    | none => (k, v) :: later

/-- A declaration produced at link time from a template. -/
structure Generator where
  module : ModulePath
  name : String
  /-- Parameter names with their default values. -/
  params : List (String × Option String)
  template : String
deriving Inhabited

namespace Generator

/-- The text of an instance: in the template, `{args}` becomes the arguments written
`k=v` and joined by commas, then `{name}` the instance's name, then each `{k}` the value of
argument `k`. -/
def generate (g : Generator) (linkedName : String) (args : List (String × String)) : String :=
  let args := collectLast args
  let placeholder (k : String) : List Char := ('\x7b' :: k.toList) ++ ['\x7d']
  let written := ",".intercalate (args.map fun (k, v) => k ++ "=" ++ v)
  let text := Text.replaceAll (placeholder "args") written.toList g.template.toList
  let text := Text.replaceAll (placeholder "name") linkedName.toList text
  let text := args.foldl (fun t (k, v) => Text.replaceAll (placeholder k) v.toList t) text
  String.ofList text

end Generator

/-- All modules that can take part in a link. -/
structure Registry where
  options : ParseOptions
  /-- The live modules; no two share a path. -/
  modules : List ParsedModule
  failures : List (ModulePath × ParseReport)
  /-- In registration order; no two share a module and a name. -/
  generators : List Generator
deriving Inhabited

namespace Registry

/-- A registry without modules, failures or generators. -/
def empty (options : ParseOptions) : Registry := ⟨options, [], [], []⟩

/-- The module of a path. -/
def module? (r : Registry) (p : ModulePath) : Option ParsedModule := r.modules.find? (·.path == p)

/-- The recorded parse failure of a path. -/
def parseFailure? (r : Registry) (p : ModulePath) : Option ParseReport := r.failures.lookup p

/-- The generator of a module and name. -/
def generator? (r : Registry) (m : ModulePath) (name : String) : Option Generator :=
  r.generators.find? fun g => g.module == m && g.name == name

/-- The generators of a module, in registration order. -/
def generatorsOf (r : Registry) (m : ModulePath) : List Generator :=
  r.generators.filter (·.module == m)

/-- Drops the module of a path, returning it. -/
def removeModule (r : Registry) (p : ModulePath) : Registry × Option ParsedModule :=
  ({ r with modules := r.modules.filter fun m => m.path != p }, r.module? p)

/-- Forgets the parse failure of a path. -/
def clearFailure (r : Registry) (p : ModulePath) : Registry :=
  { r with failures := r.failures.filter (·.1 != p) }

/-- Adds a parsed module, replacing the module of its path and clearing its failure. -/
def insertModule (r : Registry) (m : ParsedModule) : Registry :=
  let r := { r with modules := r.modules.filter (fun (n : ParsedModule) => n.path != m.path) ++ [m] }
  r.clearFailure m.path

/-- Parses a source and adds it, or records why it failed. Returns the module's path. -/
def addSource (r : Registry) (filePath text : String) : Registry × Except ParseReport ModulePath :=
  match parseModule text filePath r.options with
  | .ok m => ((r.clearFailure (ModulePath.ofFilePath filePath)).insertModule m, .ok m.path)
  | .error e =>
    let p := (ModulePath.declaredIn? text).getD (ModulePath.ofFilePath filePath)
    let r := (r.removeModule p).1.clearFailure p
    ({ r with failures := r.failures ++ [(p, e)] }, .error e)

/-- Registers a generator, replacing one of the same module and name in its place. -/
def registerGenerator (r : Registry) (g : Generator) : Registry :=
  let same (h : Generator) := h.module == g.module && h.name == g.name
  if r.generators.any same then
    { r with generators := r.generators.map fun h => if same h then g else h }
  else { r with generators := r.generators ++ [g] }

/-- Sorts paths segment by segment, dropping repeats. -/
def sortPaths (ps : List ModulePath) : List ModulePath :=
  let sorted := sortBy (fun a b => !ModulePath.lt b a) ps
  sorted.foldr (fun p acc => match acc with
    | q :: _ => if p == q then acc else p :: acc
    | [] => [p]) []

/-- The modules that export a declaration or a generator of this name, sorted. -/
def exporters (r : Registry) (name : String) : List ModulePath :=
  sortPaths ((r.modules.filter fun m => (m.findExport? name).isSome).map (·.path) ++
    (r.generators.filter (·.name == name)).map (·.module))

/-- The paths of the live modules, ordered by their written form. -/
def paths (r : Registry) : List ModulePath :=
  (r.modules.map (·.path)).mergeSort fun a b => decide (a.render ≤ b.render)

end Registry

end ShaderLink
