import ShaderLink.Parse.Report
import ShaderLink.Module.Path
import ShaderLink.Fault

/-!
# Link errors

A link fails when its root module is missing, when a module it needs failed to parse, or when
a reference matches several imports equally well and they disagree on what it names.
-/

namespace ShaderLink

/-- Why a link failed. -/
inductive LinkError where
  | rootNotFound (module : ModulePath)
  | parse (module : ModulePath) (report : ParseReport)
  | ambiguousImport (module : ModulePath) (reference : String) (candidates : List String)
deriving Inhabited

namespace LinkError

/-- The module an error is about. -/
def module : LinkError → ModulePath
  | rootNotFound m => m
  | parse m _ => m
  | ambiguousImport m _ _ => m

/-- The report of an error. -/
def message : LinkError → String
  | rootNotFound m => "module `" ++ m.render ++ "` not found"
  | parse m r => "module `" ++ m.render ++ "` failed to parse: " ++ r.display
  | ambiguousImport m ref cs =>
    "`" ++ ref ++ "` in module `" ++ m.render ++ "` is ambiguous, it could be " ++
      " or ".intercalate cs

end LinkError

/-- Why a link produced no output: an error of the inputs, or a fault. -/
inductive LinkFailure where
  | error (e : LinkError)
  | fault (f : Fault)
deriving Inhabited

end ShaderLink
