import ShaderLink.Text.Span

/-!
# Tokens

A token is a kind, its text and the span it covers. Two token sets read the same characters in
two ways: `code` for shader code, and `line` for the rest of a directive line (the arguments of
`import` or `module`), where a line break is a token of its own because it ends the directive.
Both sets skip blanks and comments unless a grammar rule asks for them.

The reserved words of the shading language can never name a declaration or a reference.
-/

namespace ShaderLink

/-- What a token is. -/
inductive TokenKind where
  | space
  | comment
  | eol
  | directive
  | word
  | number
  | symbol
  | relativePrefix
  | unknown
deriving DecidableEq, Repr, Inhabited

namespace TokenKind

/-- The name of a kind, as token listings show it. -/
def name : TokenKind → String
  | space => "space"
  | comment => "comment"
  | eol => "eol"
  | directive => "directive"
  | word => "word"
  | number => "number"
  | symbol => "symbol"
  | relativePrefix => "relative_prefix"
  | unknown => "unknown"

end TokenKind

/-- The two ways of reading characters: shader code, and the rest of a directive line. -/
inductive TokenSet where
  | code
  | line
deriving DecidableEq, Repr, Inhabited

/-- Both token sets skip blanks and comments. -/
def TokenSet.ignores (_ : TokenSet) (k : TokenKind) : Bool :=
  k == .space || k == .comment

/-- A token: its kind, its text and the bytes it covers. -/
structure Token where
  kind : TokenKind
  text : String
  span : Span
deriving DecidableEq, Repr, Inhabited

/-- The reserved words, which never name a declaration or a reference. -/
def keywords : List String :=
  ["alias", "break", "case", "const", "const_assert", "continue", "continuing", "default",
    "diagnostic", "discard", "else", "enable", "false", "fn", "for", "if", "let", "loop",
    "override", "requires", "return", "struct", "switch", "true", "var", "while"]

/-- A reserved word. -/
def isKeyword (s : String) : Bool := keywords.contains s

end ShaderLink
