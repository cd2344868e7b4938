import ShaderLink.Text.Blank
import ShaderLink.Text.Alnum

/-!
# Module paths

A module is named by a path of segments, `lib/util`. Paths are read from three kinds of text:
a written path (`a/b`, `a::b`, `a.b` and `a\b` all mean the same), a file path (a leading `./`
and the `.wgsl` or `.wesl` extension are dropped), and the first line of a module that declares
its own path (`module a::b;`), scanned without parsing so that a module that fails to parse is
still known by the name it gave itself.

Import paths may start with `.` and `..` markers; `resolveRelative` turns them into an absolute
path against the importing module, and refuses paths that climb above the root.
-/

namespace ShaderLink

/-- A path to a module, as a list of segments. -/
structure ModulePath where
  segments : List String
deriving DecidableEq, Inhabited, Repr

namespace Text

/-- Splits a text at every character that satisfies `p`, dropping the empty parts. -/
def fields (p : Char → Bool) (cs : List Char) : List (List Char) :=
  (cs.splitOnP p).filter (!·.isEmpty)

/-- Drops `pre` from the front of a text, if the text starts with it. -/
def stripPrefix? (pre cs : List Char) : Option (List Char) :=
  if pre.isPrefixOf cs then some (cs.drop pre.length) else none

/-- Drops `suf` from the end of a text, if the text ends with it. -/
def stripSuffix? (suf cs : List Char) : Option (List Char) :=
  if suf.isSuffixOf cs then some (cs.take (cs.length - suf.length)) else none

/-- Drops every leading copy of `pre`. -/
def dropPrefixes (pre cs : List Char) : List Char :=
  match pre, stripPrefix? pre cs with
  | _ :: _, some rest => if rest.length < cs.length then dropPrefixes pre rest else cs
  | _, _ => cs
termination_by cs.length

end Text

namespace ModulePath

/-- The characters that separate the segments of a written path. -/
def isSeparator (c : Char) : Bool := c == '/' || c == '\\' || c == ':' || c == '.'

/-- Reads a written path: segments between `/`, `\`, `:` and `.`, empty ones dropped. -/
def parse (s : String) : ModulePath :=
  ⟨(Text.fields isSeparator s.toList).map String.ofList⟩

/-- Reads a file path: leading `./` markers and a `.wgsl` or `.wesl` extension are dropped. -/
def ofFilePath (s : String) : ModulePath :=
  let path := Text.dropPrefixes "./".toList s.toList
  let path := (Text.stripSuffix? ".wgsl".toList path <|> Text.stripSuffix? ".wesl".toList path).getD path
  ⟨(Text.fields isSeparator path).map String.ofList⟩

/-- A character that may appear in a path declared by a `module` line. -/
def isDeclaredPathChar (c : Char) : Bool :=
  Text.isAlphanumeric c || c == '_' || c == '.' || c == '/' || c == ':'

/-- The path a single line declares: `module` or `#module`, a blank, then a path of
alphanumerics, `_`, `.`, `/` and `:`, optionally closed by semicolons. -/
def ofDeclarationLine? (line : List Char) : Option ModulePath := do
  let line := Text.trim line
  let rest ← Text.stripPrefix? "#module".toList line <|> Text.stripPrefix? "module".toList line
  let path := Text.trimEnd ((Text.trim rest).reverse.dropWhile (· == ';')).reverse
  let startsBlank := match rest with
    | c :: _ => Text.isBlank c
    | [] => false
  if startsBlank && !path.isEmpty && path.all isDeclaredPathChar then
    some (parse (String.ofList path))
  else none

/-- The path named by the first `module` line of a text, found by scanning its lines. -/
def declaredIn? (text : String) : Option ModulePath :=
  (Text.lines text.toList).findSome? ofDeclarationLine?

/-- The number of `.` and `..` markers at the start of an import path. -/
def markerCount (path : List String) : Nat :=
  (path.takeWhile fun s => s == "." || s == "..").length

/-- Resolves the `.` and `..` markers at the start of an import path against this module:
`./x` is a sibling, and each `..` goes one level further up. Paths that climb above the root
resolve to nothing. -/
def resolveRelative (base : ModulePath) (path : List String) : Option (List String) :=
  let markers := markerCount path
  if markers = 0 then some path
  else
    let parents := ((path.take markers).filter (· == "..")).length
    if parents + 1 ≤ base.segments.length then
      some (base.segments.take (base.segments.length - 1 - parents) ++ path.drop markers)
    else none

/-- The path written with `/` between its segments. -/
def render (p : ModulePath) : String := "/".intercalate p.segments

/-- The number of segments. -/
def length (p : ModulePath) : Nat := p.segments.length

/-- Lexicographic order on segment lists, each segment compared by code points. -/
def segmentsLt : List String → List String → Bool
  | _, [] => false
  | [], _ :: _ => true
  | a :: as, b :: bs => a < b || (a == b && segmentsLt as bs)

/-- Paths are ordered segment by segment. -/
def lt (p q : ModulePath) : Bool := segmentsLt p.segments q.segments

end ModulePath

end ShaderLink
