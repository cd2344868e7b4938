/-!
# Blanks and line breaks

The white-space characters (Unicode property `White_Space`) and the characters that start a
line break, with the trims and the line split built on them. A line of `lines` ends at `'\n'`,
and a `'\r'` just before that break belongs to the break; a final break opens no empty line.
-/

namespace ShaderLink.Text

/-- A character with the Unicode property `White_Space`: tab, line feed, vertical tab, form
feed, carriage return, space, next line, no-break space, ogham space mark, the spaces from
en quad to hair space, line and paragraph separators, narrow no-break space, medium
mathematical space and ideographic space. -/
def isBlank (c : Char) : Bool :=
  let n := c.toNat
  (0x09 ≤ n && n ≤ 0x0D) || n == 0x20 || n == 0x85 || n == 0xA0 || n == 0x1680 ||
    (0x2000 ≤ n && n ≤ 0x200A) || n == 0x2028 || n == 0x2029 || n == 0x202F ||
    n == 0x205F || n == 0x3000

/-- A character that starts a line break: line feed, vertical tab, form feed, carriage
return, next line, and the line and paragraph separators. -/
def isLineBreak (c : Char) : Bool :=
  c == '\n' || c == '\x0b' || c == '\x0c' || c == '\r' || c == '\x85' ||
    c == '\u2028' || c == '\u2029'

/-- Drops the blanks at the start. -/
def trimStart (cs : List Char) : List Char := cs.dropWhile isBlank

/-- Drops the blanks at the end. -/
def trimEnd (cs : List Char) : List Char := (cs.reverse.dropWhile isBlank).reverse

/-- Drops the blanks at both ends. -/
def trim (cs : List Char) : List Char := trimEnd (trimStart cs)

/-- A line without its final carriage return, if it has one. -/
def dropReturn (line : List Char) : List Char :=
  match line.getLast? with
  | some '\r' => line.dropLast
  | _ => line

/-- The lines of a text: split at `'\n'`, each without a final `'\r'`; a break at the very end
starts no further line, and the empty text has no lines. -/
def lines (cs : List Char) : List (List Char) :=
  if cs.isEmpty then []
  else
    let parts := cs.splitOn '\n'
    let parts := if cs.getLast? == some '\n' then parts.dropLast else parts
    parts.map dropReturn

end ShaderLink.Text
