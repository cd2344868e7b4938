import ShaderLink.Parse.Body

/-!
# The grammar of a module

A module is a sequence of top-level items, tried in this order at each point: a `module`
line, an import in either spelling, an `#export` line, a pass-through directive (`enable`,
`requires`, `diagnostic`, `const_assert`, or an empty `;`), a declaration. A token that
starts none of them is skipped with a warning.
-/

namespace ShaderLink

namespace Grammar

open ShaderLink.Parser

/-- `module a::b;` or `#module a/b`. -/
def moduleLine : Parser Item := do
  let (path, span) ← spanned do
    let _ ← (text "module").orElse (text "#module")
    withSet .line do
      let path ← commit modulePath "module path"
      let _ ← commit lineEnd "end of line"
      pure path
  pure (.moduleLine path span)

/-- `#import foo from bar` or `import bar/foo;`. -/
def importLine (fuel : Nat) : Parser Item := do
  let directive : Parser (ImportTree × ImportDialect) := do
    let _ ← text "#import"
    withSet .line do
      let tree ← commit (importDirective fuel) "import"
      let _ ← commit lineEnd "end of import"
      pure (tree, .directive)
  let tree : Parser (ImportTree × ImportDialect) := do
    let _ ← text "import"
    withSet .line do
      let tree ← commit (importTree fuel) "import path"
      let _ ← commit lineEnd "end of import"
      pure (tree, .tree)
  let ((t, dialect), span) ← spanned (directive.orElse tree)
  pure (.importItem t dialect span)

/-- `#export`, with optional parameters, on its own line or in front of a declaration. -/
def exportLine : Parser Item := do
  let (params, span) ← spanned do
    let _ ← text "#export"
    withSet .line do
      let params ← exportArgs
      let _ ← optional lineEnd
      pure params
  pure (.exportItem params span)

/-- A top-level statement kept as text: `enable`, `requires`, `diagnostic` and
`const_assert` up to their `;`, or an empty `;`. -/
def passThrough (fuel : Nat) : Parser Item := do
  let statement : Parser Unit := do
    let _ ← (text "enable").orElse ((text "requires").orElse
      ((text "diagnostic").orElse (text "const_assert")))
    let _ ← bodyUntil fuel ";" .code
    pure ()
  let (_, span) ← spanned (((fun _ => ()) <$> text ";").orElse statement)
  pure (.text span)

/-- Skips a token that starts no known item, with a warning. -/
def skipUnknown : Parser Unit := do
  let t ← anyToken
  warn t.span ("unexpected `" ++ t.text ++ "` at module level, skipped")

/-- One top-level item; a skipped token yields none. -/
def globalItem (fuel : Nat) : Parser (Option Item) :=
  (some <$> moduleLine).orElse <|
  (some <$> importLine fuel).orElse <|
  (some <$> exportLine).orElse <|
  (some <$> passThrough fuel).orElse <|
  ((fun d => some (.decl d)) <$> declaration fuel).orElse <|
  ((fun _ => none) <$> skipUnknown)

/-- All top-level items, up to the end of the text. -/
def topLevel (fuel : Nat) : Parser (List Item) := do
  let items ← many (globalItem fuel)
  endOfInput
  pure items.reduceOption

end Grammar

end ShaderLink
