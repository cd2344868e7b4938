import ShaderLink.Text.Span

/-!
# Byte offsets into UTF-8 text

Texts are handled as character lists, while every position the library reports is a byte
offset into the UTF-8 encoding. This module converts between the two views: the byte size of a
character list, splitting and slicing at byte offsets (refused off character boundaries, as a
string slice must be), flooring an offset to a boundary, and the line and column of an offset.

Lines are separated by `'\n'` alone; columns count characters, both from one.
-/

namespace ShaderLink.Text

/-- The number of bytes of a character list in UTF-8. -/
def byteSize : List Char → Nat
  | [] => 0
  | c :: cs => c.utf8Size + byteSize cs

/-- Splits a text at byte offset `n`, when `n` is a character boundary inside the text. -/
def splitAt? : List Char → Nat → Option (List Char × List Char)
  | cs, 0 => some ([], cs)
  | [], _ + 1 => none
  | c :: cs, n + 1 =>
    if c.utf8Size ≤ n + 1 then
      (splitAt? cs (n + 1 - c.utf8Size)).map fun (p, r) => (c :: p, r)
    else none

/-- The bytes `[a, b)` of a text, when `a ≤ b` and both are character boundaries. -/
def slice? (cs : List Char) (a b : Nat) : Option (List Char) :=
  if a ≤ b then do
    let (_, rest) ← splitAt? cs a
    let (mid, _) ← splitAt? rest (b - a)
    pure mid
  else none

/-- The bytes of `s` that a span covers, when the span is a valid slice of `s`. -/
def sliceString? (s : String) (sp : Span) : Option String :=
  (slice? s.toList sp.start sp.stop).map String.ofList

/-- `s.isBoundary n` holds when byte offset `n` falls between two characters of `s`. -/
def isBoundary (cs : List Char) (n : Nat) : Bool := (splitAt? cs n).isSome

/-- The longest prefix of at most `n` bytes: the text before `n` floored to a boundary. -/
def floorPrefix : List Char → Nat → List Char
  | [], _ => []
  | c :: cs, n => if c.utf8Size ≤ n then c :: floorPrefix cs (n - c.utf8Size) else []

/-- The rest of the text from byte offset `n` on, or nothing when `n` is off a boundary. -/
def dropBytes? (cs : List Char) (n : Nat) : Option (List Char) := (splitAt? cs n).map (·.2)

/-- The one-based line and column of a byte offset. An offset past the end counts as the end,
and one inside a character as that character's start; columns count characters. -/
def lineColumn (cs : List Char) (offset : Nat) : Nat × Nat :=
  let before := floorPrefix cs offset
  (before.count '\n' + 1, (before.reverse.takeWhile (· != '\n')).length + 1)

@[simp] theorem byteSize_nil : byteSize [] = 0 := rfl

@[simp] theorem byteSize_cons (c : Char) (cs : List Char) :
    byteSize (c :: cs) = c.utf8Size + byteSize cs := rfl

theorem byteSize_append (as bs : List Char) :
    byteSize (as ++ bs) = byteSize as + byteSize bs := by
  induction as with
  | nil => simp
  | cons a as ih => simp [ih, Nat.add_assoc]

@[simp] theorem splitAt?_zero (cs : List Char) : splitAt? cs 0 = some ([], cs) := by
  cases cs <;> rfl

end ShaderLink.Text
