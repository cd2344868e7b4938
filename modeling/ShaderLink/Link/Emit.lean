import ShaderLink.Link.Instance
import ShaderLink.Link.Output
import ShaderLink.Edit.Words
import ShaderLink.SourceMap.Merge
import ShaderLink.Text.Alnum

/-!
# Emitting a linked shader

The linked text starts with the global directives (`enable`, `requires`, `diagnostic`) that
the other contributing modules need and the root does not already have, since WGSL wants them
before any declaration. The root's text follows, without its `module`, import and export lines
and with its references renamed. Then comes every other instance in order of creation, each
its declaration's text with renames and parameter values applied, or its generator's text,
set apart from what precedes it by a blank line.

Every piece carries its source map, so the linked map is the pieces' maps joined. It must
cover the linked text exactly; a gap or an overlap would be a fault of the linker.

`link` runs the whole: it seeds the instances with the root's declarations, visits them in
order of creation while new ones appear, and emits the result.
-/

namespace ShaderLink

namespace Linker

/-- One declaration of a module, `span` of its text, with `renames` applied and the words that
name parameters replaced by their values. -/
def declarationText (m : ParsedModule) (span : Span) (renames : List Splice)
    (args : List (String × String)) : Except Fault SourceMap := do
  let sliced ← splice m.text m.textId renames (some span)
  let mapped ← m.map.merge sliced
  if args.isEmpty then return mapped
  let replaced ← renameWords mapped.dest mapped.id fun w => args.reverse.lookup w
  mapped.merge replaced

/-- The first word of a statement: the characters up to the first that is neither
alphanumeric nor `_`. -/
def leadingWord (s : String) : String :=
  String.ofList (s.toList.takeWhile fun c => Text.isAlphanumeric c || c == '_')

/-- The spans of a module's global directives. -/
def directiveSpans (m : ParsedModule) : List Span :=
  m.elems.toList.filterMap fun
    | .text span =>
      if ["enable", "requires", "diagnostic"].contains (leadingWord (m.spanText span)) then
        some span
      else none
    | _ => none

/-- Whether an instance is a declaration of the root taken as written. Those are emitted as
part of the root's text. -/
def isRootInstance (root : ModulePath) (k : InstanceKey) : Bool :=
  k.args.isEmpty && match k.target with
    | .decl m _ => m == root
    | .generator _ _ => false

/-- The splices that make the root's text its part of the linked text: its `module`, import
and export elements are removed, and the references of its declarations renamed. -/
def rootSplices (rootModule : ParsedModule) (root : ModulePath) (l : Linker) : List Splice :=
  let removed : List Splice := rootModule.elems.toList.filterMap fun
    | .moduleLine s _ => some ⟨s, ""⟩
    | .importItem s _ _ => some ⟨s, ""⟩
    | .exportItem s _ => some ⟨s, ""⟩
    | _ => none
  let renamed := (l.instances.toList.filter (isRootInstance root ·.key)).flatMap (·.renames)
  removed ++ renamed

/-- What separates a new piece from the text so far: nothing at the start or after a blank
line, else enough line breaks to make one. -/
def separatorAfter (dest : String) : Option String :=
  if dest.isEmpty || dest.endsWith "\n\n" then none
  else if dest.endsWith "\n" then some "\n"
  else some "\n\n"

/-- The name of the text of the generator instance at `index`. -/
def generatedId (module : ModulePath) (name : String) (index : Nat) : String :=
  "generator:" ++ module.render ++ "/" ++ name ++ "#" ++ toString index

/-- The text of a non-root instance with its source map, and the source it adds, if any. -/
def piece (reg : Registry) (index : Nat) (inst : Instance) :
    Except Fault (Option (SourceMap × Option (String × String))) :=
  match inst.key.target with
  | .decl p i =>
    match reg.module? p with
    | none => pure none
    | some m =>
      match m.decl? i with
      | none => pure none
      | some d => do
        let text ← declarationText m d.span inst.renames inst.key.args
        pure (some (text, none))
  | .generator mp name =>
    match reg.generator? mp name with
    | none => pure none
    | some g =>
      let text := g.generate inst.name inst.key.args
      let id := generatedId mp name index
      pure (some (SourceMap.identity id id text, some (id, text)))

/-- Assembles the linked shader from a finished link. -/
def emit (reg : Registry) (root : ModulePath) (l : Linker) : Except Fault LinkOutput := do
  let modules := l.modules.toList.filterMap reg.module?
  let rootModule := (reg.module? root).getD default
  let mut sources := modules.map fun m => (m.sourceId, m.source)
  let warnings := modules.flatMap (·.warnings) ++ l.warnings.toList
  let mut out := SourceMap.empty linkedId
  let mut directives := (directiveSpans rootModule).map rootModule.spanText
  for m in modules do
    if m.path != root then
      for span in directiveSpans m do
        let written := m.spanText span
        if !directives.contains written then
          directives := directives ++ [written]
          out := out.append (← declarationText m span [] [])
          out := out.add "\n" linkerId ⟨0, 0⟩
  let sliced ← splice rootModule.text rootModule.textId (rootSplices rootModule root l) none
  out := out.append (← rootModule.map.merge sliced)
  for (inst, index) in l.instances.toList.zipIdx do
    if !isRootInstance root inst.key then
      if let some (text, source) ← piece reg index inst then
        if let some s := source then sources := sources ++ [s]
        if let some sep := separatorAfter out.dest then out := out.add sep linkerId ⟨0, 0⟩
        out := out.append text
  out := out.compact
  match out.checkCoverage with
  | some e => throw (.inconsistentLink e.message)
  | none => pure ⟨out, warnings, collectLast sources⟩

/-- The state a link starts from, before the root's declarations are entered. -/
def initial : Linker := ⟨#[], {}, [], #[], #[]⟩

/-- How many instances a link visits at most. A link whose generic imports call each other
with ever new arguments creates instances without end; this bound stops it. -/
def visitLimit : Nat := 1000000

/-- The linker after seeding it with the root's declarations and visiting instances in order
of creation, at most `limit` of them. -/
def walk (ctx : LinkContext) (limit : Nat) : Except LinkFailure Linker := do
  let run : LinkM Unit := do
    seed
    visitFrom limit 0
  let ((), l) ← (run.run ctx).run initial
  pure l

end Linker

/-- Links `root` as `link` does, visiting at most `limit` instances; a link that would visit
more is a fault. -/
def linkWithin (limit : Nat) (reg : Registry) (root : ModulePath) (options : LinkOptions) :
    Except LinkFailure LinkOutput := do
  if (reg.module? root).isNone then
    throw (.error (match reg.parseFailure? root with
      | some e => .parse root e
      | none => .rootNotFound root))
  let l ← Linker.walk ⟨reg, root, options⟩ limit
  if limit < l.instances.size then throw (.fault .stalled)
  match Linker.emit reg root l with
  | .ok o => pure o
  | .error f => throw (.fault f)

/-- Links `root` with every declaration it needs from the other modules of the registry.

The root's text is kept as it is, minus its `module`, import and export lines; the other
declarations follow it in the order they were reached. A root that is missing is an error,
the parse error if its last parse failed. -/
def link (reg : Registry) (root : ModulePath) (options : LinkOptions) :
    Except LinkFailure LinkOutput :=
  linkWithin Linker.visitLimit reg root options

end ShaderLink
