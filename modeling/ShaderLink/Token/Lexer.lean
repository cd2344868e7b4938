import ShaderLink.Token.Basic
import ShaderLink.Text.Blank
import ShaderLink.Text.Ident

/-!
# Scanning one token

`scan set cs` reads the token at the front of `cs`. Each token set is an ordered list of rules;
the first rule that matches a non-empty prefix decides the kind, and a character that no rule
matches is an `unknown` token of its own. Two rules can fail outright instead of declining:
a block comment that never closes, and a hexadecimal exponent marker without digits. Those are
`LexFault`s and end the whole scan.

The code set tries, in order: blanks, comments (line and nesting block comments), directives
(`#` and an identifier), numbers, words, and symbols (`::`, `->` and single characters). The
line set tries blanks other than line breaks, line comments, line breaks, the relative markers
`../` and `./`, numbers, words and the symbols of paths (`::` and single characters).

Main statement: a scan of a non-empty text yields a non-empty token or a fault
(`scan_token_pos`), so a loop that scans until the text ends terminates.
-/

namespace ShaderLink

/-- Why a token could not be read. -/
inductive LexFault where
  /-- A block comment is still open at the end of the text. -/
  | unclosedComment
  /-- A hexadecimal exponent marker `p` has no decimal digits after it. -/
  | exponentDigits
deriving DecidableEq, Repr, Inhabited

/-- The result of one rule on the front of a text: it declines, matches a number of
characters, or fails outright. -/
inductive Match where
  | miss
  | hit (length : Nat)
  | fault (f : LexFault)
deriving DecidableEq, Repr, Inhabited

namespace Match

/-- Shifts a match by a prefix of `k` characters already read. -/
def after (k : Nat) : Match → Match
  | .hit n => .hit (k + n)
  | m => m

/-- An optional tail: a declined tail counts as an empty one. -/
def orEmpty : Match → Match
  | .miss => .hit 0
  | m => m

/-- The first alternative that does not decline. -/
def orElse : Match → (Unit → Match) → Match
  | .miss, m => m ()
  | m, _ => m

end Match

/-- The result of scanning the front of a text. -/
inductive Scan where
  /-- The text is empty. -/
  | atEnd
  /-- A token of this kind covers the first `length` characters. -/
  | token (kind : TokenKind) (length : Nat)
  | fault (f : LexFault)
deriving DecidableEq, Repr, Inhabited

namespace Lexer

/-- An ASCII decimal digit. -/
def isDigit (c : Char) : Bool := '0' ≤ c && c ≤ '9'

/-- An ASCII hexadecimal digit. -/
def isHexDigit (c : Char) : Bool :=
  isDigit c || ('a' ≤ c && c ≤ 'f') || ('A' ≤ c && c ≤ 'F')

/-- The length of the longest prefix whose characters satisfy `p`. -/
def run (p : Char → Bool) (cs : List Char) : Nat := (cs.takeWhile p).length

/-- One character out of a list of choices: `1` if the text starts with one, else `0`. -/
def oneOf (choices : List Char) : List Char → Nat
  | c :: _ => if choices.contains c then 1 else 0
  | [] => 0

/-- Runs of blanks. -/
def blanks (cs : List Char) : Match :=
  match run Text.isBlank cs with
  | 0 => .miss
  | n => .hit n

/-- Runs of blanks that are not line breaks. -/
def lineBlanks (cs : List Char) : Match :=
  match run (fun c => Text.isBlank c && !Text.isLineBreak c) cs with
  | 0 => .miss
  | n => .hit n

/-- A line comment: `//` up to the next line break. -/
def lineComment : List Char → Match
  | '/' :: '/' :: r => .hit (2 + run (fun c => !Text.isLineBreak c) r)
  | _ => .miss

/-- The rest of a block comment after its opening, with `depth` nested comments still open
besides the outermost: the number of characters up to and including the final `*/`. -/
def blockTail : List Char → Nat → Option Nat
  | '*' :: '/' :: _, 0 => some 2
  | '*' :: '/' :: r, d + 1 => (blockTail r d).map (· + 2)
  | '/' :: '*' :: r, d => (blockTail r (d + 1)).map (· + 2)
  | _ :: r, d => (blockTail r d).map (· + 1)
  | [], _ => none

/-- A block comment, `/*` to the matching `*/`; block comments nest. -/
def blockComment : List Char → Match
  | '/' :: '*' :: r =>
    match blockTail r 0 with
    | some n => .hit (2 + n)
    | none => .fault .unclosedComment
  | _ => .miss

/-- A line or block comment. -/
def comment (cs : List Char) : Match := (lineComment cs).orElse fun _ => blockComment cs

/-- An identifier: an identifier-start character and any continuing characters, or an
underscore followed by at least one continuing character. -/
def ident : List Char → Match
  | '_' :: r =>
    match run Text.isIdentContinue r with
    | 0 => .miss
    | n => .hit (1 + n)
  | c :: r => if Text.isIdentStart c then .hit (1 + run Text.isIdentContinue r) else .miss
  | [] => .miss

/-- A directive name, `#` and an identifier. -/
def directive : List Char → Match
  | '#' :: r => (ident r).after 1
  | _ => .miss

/-- A binary exponent of a hexadecimal float: `p` or `P`, an optional sign, decimal digits
(required), and an optional `f` or `h`. -/
def hexExponent : List Char → Match
  | c :: r =>
    if c == 'p' || c == 'P' then
      let s := oneOf ['+', '-'] r
      let r := r.drop s
      match run isDigit r with
      | 0 => .fault .exponentDigits
      | d => .hit (1 + s + d + oneOf ['f', 'h'] (r.drop d))
    else .miss
  | [] => .miss

/-- A fraction of a hexadecimal number after its point: hexadecimal digits (possibly none)
and an optional exponent. -/
def hexFraction (r : List Char) : Match :=
  let d := run isHexDigit r
  (hexExponent (r.drop d)).orEmpty.after d

/-- A hexadecimal number after `0x`: digits with an optional suffix `i`, `u`, exponent or
fraction; or a point, at least one digit and an optional exponent. -/
def hexBody (r : List Char) : Match :=
  match run isHexDigit r with
  | 0 =>
    match r with
    | '.' :: r =>
      match run isHexDigit r with
      | 0 => .miss
      | d => ((hexExponent (r.drop d)).orEmpty.after d).after 1
    | _ => .miss
  | d =>
    let r := r.drop d
    let tail : Match :=
      match oneOf ['i', 'u'] r with
      | 1 => .hit 1
      | _ =>
        (hexExponent r).orElse fun _ =>
          match r with
          | '.' :: r => (hexFraction r).after 1
          | _ => .hit 0
    tail.after d

/-- A hexadecimal number, `0x` or `0X` first. -/
def hexNumber : List Char → Match
  | '0' :: x :: r => if x == 'x' || x == 'X' then (hexBody r).after 2 else .miss
  | _ => .miss

/-- A decimal exponent: `e` or `E`, an optional sign and at least one digit. -/
def decimalExponent : List Char → Option Nat
  | c :: r =>
    if c == 'e' || c == 'E' then
      let s := oneOf ['+', '-'] r
      match run isDigit (r.drop s) with
      | 0 => none
      | d => some (1 + s + d)
    else none
  | [] => none

/-- An optional exponent and then an optional `f` or `h` suffix: their total length. -/
def exponentSuffix (r : List Char) : Nat :=
  let e := (decimalExponent r).getD 0
  e + oneOf ['f', 'h'] (r.drop e)

/-- A fraction after a point: digits (possibly none), exponent and suffix. -/
def fraction (r : List Char) : Nat :=
  let d := run isDigit r
  d + exponentSuffix (r.drop d)

/-- What may follow the digits of a decimal number: a fraction, an exponent with optional
suffix, a suffix `f`, `h`, `i` or `u`, or nothing. -/
def decimalTail : List Char → Nat
  | '.' :: r => 1 + fraction r
  | r =>
    match decimalExponent r with
    | some e => e + oneOf ['f', 'h'] (r.drop e)
    | none => oneOf ['f', 'h', 'i', 'u'] r

/-- A decimal number: `00` digits and a fraction; a point and at least one digit with
exponent and suffix; or digits and a tail. -/
def decimalNumber (cs : List Char) : Match :=
  let zeroes : Match :=
    match cs with
    | '0' :: '0' :: r =>
      let d := run isDigit r
      match r.drop d with
      | '.' :: r => .hit (2 + d + 1 + fraction r)
      | _ => .miss
    | _ => .miss
  zeroes.orElse fun _ =>
    match cs with
    | '.' :: r =>
      match run isDigit r with
      | 0 => .miss
      | d => .hit (1 + d + exponentSuffix (r.drop d))
    | _ =>
      match run isDigit cs with
      | 0 => .miss
      | d => .hit (d + decimalTail (cs.drop d))

/-- A number literal, hexadecimal or decimal. -/
def number (cs : List Char) : Match := (hexNumber cs).orElse fun _ => decimalNumber cs

/-- The single-character symbols of shader code. -/
def codeSymbols : List Char :=
  ['(', ')', '[', ']', '{', '}', ':', ';', ',', '.', '@', '<', '>', '=', '+', '-', '*', '/',
    '%', '&', '|', '^', '!', '~', '?', '_']

/-- The single-character symbols of directive lines. -/
def lineSymbols : List Char := ['/', '.', '(', ')', ',', '{', '}', '*', ';']

/-- A symbol of shader code: `::`, `->` or one character of `codeSymbols`. -/
def codeSymbol : List Char → Match
  | ':' :: ':' :: _ => .hit 2
  | '-' :: '>' :: _ => .hit 2
  | cs => match oneOf codeSymbols cs with
    | 0 => .miss
    | n => .hit n

/-- A symbol of a directive line: `::` or one character of `lineSymbols`. -/
def lineSymbol : List Char → Match
  | ':' :: ':' :: _ => .hit 2
  | cs => match oneOf lineSymbols cs with
    | 0 => .miss
    | n => .hit n

/-- A line break: `\r\n`, or one line-break character. -/
def lineBreak : List Char → Match
  | '\r' :: '\n' :: _ => .hit 2
  | c :: _ => if Text.isLineBreak c then .hit 1 else .miss
  | [] => .miss

/-- A relative marker in front of an import path: `../` or `./`. -/
def relativeMarker : List Char → Match
  | '.' :: '.' :: '/' :: _ => .hit 3
  | '.' :: '/' :: _ => .hit 2
  | _ => .miss

/-- The rules of a token set, in the order they are tried. -/
def rules : TokenSet → List (TokenKind × (List Char → Match))
  | .code =>
    [(.space, blanks), (.comment, comment), (.directive, directive), (.number, number),
      (.word, ident), (.symbol, codeSymbol)]
  | .line =>
    [(.space, lineBlanks), (.comment, lineComment), (.eol, lineBreak),
      (.relativePrefix, relativeMarker), (.number, number), (.word, ident), (.symbol, lineSymbol)]

/-- Tries the rules in order on a non-empty text; a text that no rule matches starts with an
unknown character. -/
def firstRule (cs : List Char) : List (TokenKind × (List Char → Match)) → Scan
  | [] => .token .unknown 1
  | (k, m) :: rs =>
    match m cs with
    | .hit (n + 1) => .token k (n + 1)
    | .fault f => .fault f
    | _ => firstRule cs rs

end Lexer

/-- Scans the token at the front of a text with a token set. -/
def scan (set : TokenSet) : List Char → Scan
  | [] => .atEnd
  | c :: cs => Lexer.firstRule (c :: cs) (Lexer.rules set)

theorem Lexer.firstRule_token_pos {cs : List Char} {k : TokenKind} {n : Nat} :
    ∀ {rs}, Lexer.firstRule cs rs = .token k n → 0 < n
  | [], h => by simp [Lexer.firstRule] at h; omega
  | (k', m) :: rs, h => by
    simp only [Lexer.firstRule] at h
    split at h
    · simp at h; omega
    · simp at h
    · exact Lexer.firstRule_token_pos h

/-- A token scanned from a text is non-empty and the text was non-empty. -/
theorem scan_token_pos {set : TokenSet} {cs : List Char} {k : TokenKind} {n : Nat}
    (h : scan set cs = .token k n) : 0 < n ∧ cs ≠ [] := by
  cases cs with
  | nil => simp [scan] at h
  | cons c cs => exact ⟨Lexer.firstRule_token_pos h, by simp⟩

end ShaderLink
