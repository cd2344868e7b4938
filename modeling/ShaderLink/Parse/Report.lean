import ShaderLink.Parse.Basic
import ShaderLink.SourceMap.Basic
import ShaderLink.Text.Blank

/-!
# Parse reports

A failed parse is reported at the furthest position any token was read at, mapped back to the
source text the user wrote and clamped to its length, with the line and column there and an
excerpt: the rest of that line, without trailing blanks, cut to forty characters.

The message is the budget text when the token budget ran out; otherwise all expectations of
the failure, joined by "or"; otherwise its first label; otherwise "unexpected syntax".
-/

namespace ShaderLink

/-- Why and where a text could not be parsed. -/
structure ParseReport where
  message : String
  module : String
  position : Nat
  line : Nat
  column : Nat
  excerpt : String
  /-- The failure's notes, innermost first, as `Context.render` writes them. -/
  context : List String
deriving DecidableEq, Repr, Inhabited

namespace ParseReport

/-- The report as one line: `module:line:column: message`, then the excerpt if any. -/
def display (r : ParseReport) : String :=
  r.module ++ ":" ++ toString r.line ++ ":" ++ toString r.column ++ ": " ++ r.message ++
    (if r.excerpt.isEmpty then "" else " at `" ++ r.excerpt ++ "`")

/-- The message of a failure. -/
def messageOf (budget : Nat) (f : Failure) : String :=
  if f.overBudget then "parse step limit of " ++ toString budget ++ " exceeded"
  else
    let expected := f.contexts.filterMap fun
      | .expected d => some d
      | .label _ => none
    let label := f.contexts.findSome? fun
      | .label l => some l
      | .expected _ => none
    if !expected.isEmpty then "expected " ++ " or ".intercalate expected
    else match label with
      | some l => "invalid " ++ l
      | none => "unexpected syntax"

/-- The first line of the source from byte `position` on, without trailing blanks, cut to
forty characters; empty when `position` is off a character boundary. -/
def excerptAt (source : String) (position : Nat) : String :=
  match Text.dropBytes? source.toList position with
  | some rest =>
    match Text.lines rest with
    | line :: _ => String.ofList ((Text.trimEnd line).take 40)
    | [] => ""
  | none => ""

/-- The report of a failure of the parse of `module`, whose parsed text maps to `source`
by `map`, given the furthest position a token was read at. -/
def ofFailure (module source : String) (map : SourceMap) (budget furthest : Nat)
    (f : Failure) : ParseReport :=
  let mapped := ((map.destToSrc? furthest).map (·.offset)).getD furthest
  let position := min mapped source.utf8ByteSize
  let (line, column) := Text.lineColumn source.toList position
  { message := messageOf budget f
    module
    position
    line
    column
    excerpt := excerptAt source position
    context := f.contexts.map Context.render }

end ParseReport

end ShaderLink
