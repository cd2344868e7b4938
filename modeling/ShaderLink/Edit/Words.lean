import ShaderLink.Edit.Splice
import ShaderLink.Parse.Tokens

/-!
# Renaming words

`renameWords text id table` replaces whole words of a text, read as code so that comments,
number suffixes and parts of longer words are left alone. A word right after a `.` is a member
name and is kept too. A text that cannot be read as tokens is left as it is.
-/

namespace ShaderLink

/-- The splices that rename the words of a token list, given what came just before. -/
def wordSplices (table : String → Option String) : Bool → List Token → List Splice
  | _, [] => []
  | afterDot, t :: ts =>
    let rest := wordSplices table (t.kind == .symbol && t.text == ".") ts
    if t.kind == .word && !afterDot then
      match table t.text with
      | some r => ⟨t.span, r⟩ :: rest
      | none => rest
    else rest

/-- Replaces the words of `text` that `table` renames, except member names after a `.`. -/
def renameWords (text id : String) (table : String → Option String) : Except Fault SourceMap :=
  let tokens := match tokenize text with
    | .ok ts => ts
    | .error _ => []
  splice text id (wordSplices table false tokens) none

end ShaderLink
