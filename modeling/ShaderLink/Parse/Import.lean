import ShaderLink.Parse.Basic
import ShaderLink.Syntax.ImportTree

/-!
# The grammar of directive lines

Module paths, import trees and export parameters are read with the line token set active,
where a line break is a token and ends the directive. Paths separate their segments by `/`,
`::` or `.`, and may start with `./` and `../` markers. An import list between braces may
span several lines.

The recursive rules take a `fuel` argument: every nested call and every further round of a
loop first reads at least one character, so fuel from the text's length is never used up.
-/

namespace ShaderLink

namespace Grammar

open ShaderLink.Parser

variable {α : Type}

/-- A failure for the case where the fuel of a recursive rule is used up. Fuel is computed
from the length of the text, so this case is never met. -/
def outOfFuel : Parser α := fun _ c => .error ⟨true, [], false⟩ c

/-- The separator between path segments: `/`, `::` or `.`. -/
def separator : Parser Token := (text "/").orElse ((text "::").orElse (text "."))

/-- Leading `./` and `../` markers, as the segments `.` and `..`. -/
def relativeMarkers : Parser (List String) :=
  many ((fun (t : Token) => if t.text == "./" then "." else "..") <$> kind .relativePrefix)

/-- A word's text. -/
def word : Parser String := (·.text) <$> kind .word

/-- Skips line breaks. -/
def skipLineBreaks : Parser Unit := do
  let _ ← many (kind .eol)
  pure ()

/-- A renaming, `as name`. -/
def asClause : Parser String := do
  let _ ← text "as"
  commit word "alias name"

/-- Arguments in parentheses, words or numbers: `(MyStruct, 4)`. -/
def importArgs : Parser (List String) := do
  let _ ← text "("
  let args ← sepBy ((·.text) <$> (kind .word).orElse (kind .number)) (text ",")
  let _ ← commit (text ")") "`)`"
  pure args

mutual

/-- An import tree, without the `from` clause of the directive spelling. -/
def importTree : Nat → Parser ImportTree
  | 0 => outOfFuel
  | fuel + 1 => do
    let lead ← relativeMarkers
    importTreeAfter fuel lead

/-- The rest of an import tree, after the path `lead` read so far. -/
def importTreeAfter : Nat → List String → Parser ImportTree
  | 0, _ => outOfFuel
  | fuel + 1, lead => do
    if (← optional (text "\x7b")).isSome then
      let trees ← importList fuel
      return (ImportTree.list trees).withLead lead
    if (← optional (text "*")).isSome then
      let a ← optional asClause
      return (ImportTree.wildcard a).withLead lead
    let name ← commit word "import path segment"
    if (← optional separator).isSome then
      importTreeAfter fuel (lead ++ [name])
    else
      let args ← optional importArgs
      let a ← optional asClause
      return (ImportTree.simple name a args).withLead lead

/-- The items of an import list after its `{`, up to and including the `}`. -/
def importList : Nat → Parser (List ImportTree)
  | 0 => outOfFuel
  | fuel + 1 => importListAfter fuel []

/-- The rest of an import list, with the items read so far in reverse. -/
def importListAfter : Nat → List ImportTree → Parser (List ImportTree)
  | 0, _ => outOfFuel
  | fuel + 1, acc => do
    skipLineBreaks
    if (← optional (text "\x7d")).isSome then return acc.reverse
    let t ← importTree fuel
    skipLineBreaks
    if (← optional (text ",")).isNone then
      skipLineBreaks
      let _ ← commit (text "\x7d") "`,` or `\x7d`"
      return (t :: acc).reverse
    importListAfter fuel (t :: acc)

end

/-- A module path: markers, then words between separators. A final `wgsl` or `wesl`
segment is a file extension and is dropped, unless it is the only segment. -/
def modulePath : Parser (List String) := do
  let markers ← relativeMarkers
  let words ← sepBy1 word separator
  let segments := markers ++ words
  let last := segments.getLast?
  if 1 < segments.length && (last == some "wgsl" || last == some "wesl") then
    pure segments.dropLast
  else pure segments

/-- The arguments of the directive spelling: a tree, then optionally `from` and the module
path that it is relative to. -/
def importDirective (fuel : Nat) : Parser ImportTree := do
  let tree ← importTree fuel
  let origin ← optional do
    let _ ← text "from"
    commit modulePath "module path"
  pure (match origin with
    | some path => tree.withLead path
    | none => tree)

/-- The parameters of an export, `(T, N)`, if any. -/
def exportArgs : Parser (List String) := (·.getD []) <$> optional importArgs

/-- The end of a directive line: `;` with an optional line break, a line break, or the end
of the text. -/
def lineEnd : Parser Unit :=
  (do
    let _ ← text ";"
    let _ ← optional (kind .eol)
    pure ()).orElse
  (((fun _ => ()) <$> kind .eol).orElse endOfInput)

end Grammar

end ShaderLink
