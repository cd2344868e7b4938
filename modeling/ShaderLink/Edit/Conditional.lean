import ShaderLink.SourceMap.Basic
import ShaderLink.Diagnostic
import ShaderLink.Text.Blank
import ShaderLink.Module.Path

/-!
# Conditional lines

Before parsing, a module's lines are filtered by `#if name`, `#if !name`, `#else` and
`#endif` lines, which may also stand inside a line comment (`// #if name`). A condition that
is not given is false. Every directive line is removed; any other line is kept exactly when
every `#if` still open at it is in its enabled branch. An `#else` or `#endif` without an open
`#if`, and an `#if` never closed, are reported as warnings and otherwise ignored.

Lines keep their line breaks, so the kept text is the concatenation of the kept lines, and its
map copies each maximal run of kept lines from the original text.
-/

namespace ShaderLink

/-- The values of named conditions; a name that is not listed is false. -/
structure Conditions where
  values : List (String × Bool)
deriving DecidableEq, Repr, Inhabited

/-- Whether a condition holds. -/
def Conditions.holds (cs : Conditions) (name : String) : Bool :=
  (cs.values.lookup name).getD false

/-- A line that steers conditional text. -/
inductive LineDirective where
  /-- `#if name`, or `#if !name` when negated. -/
  | ifSet (name : String) (negated : Bool)
  | otherwise
  | endIf
deriving DecidableEq, Repr, Inhabited

namespace Text

/-- Splits off lines, with `acc` the reversed start of the current line. -/
def linesFrom : List Char → List Char → List (List Char)
  | [], [] => []
  | [], acc => [acc.reverse]
  | '\n' :: r, acc => ('\n' :: acc).reverse :: linesFrom r []
  | c :: r, acc => linesFrom r (c :: acc)

/-- The lines of a text, each with its line break; a final line may lack one. -/
def linesWithBreaks (cs : List Char) : List (List Char) := linesFrom cs []

end Text

namespace LineDirective

/-- Reads a directive line: blanks around, an optional `//` before, then `#`, a word and its
argument. -/
def read? (line : List Char) : Option LineDirective :=
  let rest := Text.trim line
  let rest := ((Text.stripPrefix? "//".toList rest).map Text.trimStart).getD rest
  match rest with
  | '#' :: rest =>
    let word := rest.takeWhile fun c => !Text.isBlank c
    let argument := Text.trim (rest.drop word.length)
    match String.ofList word with
    | "if" =>
      match argument with
      | '!' :: name => some (.ifSet (String.ofList (Text.trimStart name)) true)
      | _ => some (.ifSet (String.ofList argument) false)
    | "else" => some .otherwise
    | "endif" => some .endIf
    | _ => none
  | _ => none

end LineDirective

/-- The text left by the conditions, its map back to the original, and the warnings. -/
structure Conditioned where
  map : SourceMap
  warnings : List Warning
deriving Repr, Inhabited

/-- The running state of the line filter: the open `#if`s, innermost first, each with
whether its current branch is enabled and where it started; the map built so far; the
warnings; the offset of the current line, and the start of the run of kept lines that ends
there. -/
structure LineFilter where
  open_ : List (Bool × Nat)
  map : SourceMap
  warnings : List Warning
  offset : Nat
  runStart : Nat

namespace LineFilter

/-- Ends the current run of kept lines at the current offset, copying it to the map. -/
def flush (text id : String) (f : LineFilter) : LineFilter :=
  if f.runStart < f.offset then
    let piece := ((Text.slice? text.toList f.runStart f.offset).map String.ofList).getD ""
    { f with map := f.map.add piece id ⟨f.runStart, f.offset⟩ }
  else f

/-- Drops the current line: the run before it is copied, and a new run starts after it. -/
def drop (text id : String) (f : LineFilter) (len : Nat) : LineFilter :=
  let f := f.flush text id
  { f with offset := f.offset + len, runStart := f.offset + len }

/-- Processes one line. -/
def step (conds : Conditions) (text id : String) (f : LineFilter) (line : List Char) :
    LineFilter :=
  let len := Text.byteSize line
  let warn (f : LineFilter) (msg : String) : LineFilter :=
    { f with warnings := f.warnings ++ [Warning.at id text f.offset msg] }
  match LineDirective.read? line with
  | some (.ifSet name negated) =>
    drop text id { f with open_ := (conds.holds name != negated, f.offset) :: f.open_ } len
  | some .otherwise =>
    match f.open_ with
    | (enabled, start) :: rest => drop text id { f with open_ := (!enabled, start) :: rest } len
    | [] => drop text id (warn f "#else without #if") len
  | some .endIf =>
    match f.open_ with
    | _ :: rest => drop text id { f with open_ := rest } len
    | [] => drop text id (warn f "#endif without #if") len
  | none =>
    if f.open_.all (·.1) then { f with offset := f.offset + len } else drop text id f len

end LineFilter

/-- The name of a text after its conditions are applied, `id#conditioned`. -/
def conditionedId (id : String) : String := id ++ "#conditioned"

/-- Applies the conditions to a text named `id`. -/
def applyConditions (text id : String) (conds : Conditions) : Conditioned :=
  let start : LineFilter := ⟨[], SourceMap.empty (conditionedId id), [], 0, 0⟩
  let f := (Text.linesWithBreaks text.toList).foldl (LineFilter.step conds text id) start
  let f := f.flush text id
  let unclosed := f.open_.reverse.map fun (_, start) => Warning.at id text start "#if without #endif"
  ⟨f.map, f.warnings ++ unclosed⟩

end ShaderLink
