import ShaderLink.Parse.Report

/-!
# Token listings

`tokenize text` lists the tokens of a text read as code, without the blanks and comments that
the code token set skips. It fails only where a token cannot be read (an unclosed block
comment, a hexadecimal exponent without digits) or the default budget runs out.
-/

namespace ShaderLink

/-- The token budget of a parse unless one is given. -/
def defaultBudget : Nat := 1000000

/-- The tokens of a text read as code, skipped kinds left out. -/
def tokenize (text : String) : Except ParseReport (List Token) :=
  match Parser.many Parser.anyToken defaultBudget (Cursor.start text) with
  | .ok tokens _ => .ok tokens
  | .error f c =>
    .error (ParseReport.ofFailure "" text (SourceMap.identity "tokens" "" text) defaultBudget
      c.furthest f)

end ShaderLink
