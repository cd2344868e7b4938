/-!
# Byte spans

A span is a half-open range `[start, stop)` of byte offsets into a UTF-8 text. Spans are the
common currency of the library: tokens, syntax elements, source-map entries and text splices
all name the bytes they cover by a span.

Spans are plain pairs; nothing forces `start ≤ stop`, because a source map read from outside
may hold any pair. The operations that build spans from parsed input keep the order, and the
places that must refuse a reversed span check it explicitly.
-/

namespace ShaderLink

/-- A half-open range `[start, stop)` of byte offsets. -/
structure Span where
  start : Nat
  stop : Nat
deriving DecidableEq, Inhabited, Repr

namespace Span

/-- The number of bytes the span covers. -/
def length (s : Span) : Nat := s.stop - s.start

/-- A span is empty when it starts where it stops. -/
def isEmpty (s : Span) : Bool := s.start == s.stop

/-- `s.contains t` holds when `t` lies inside `s`. -/
def contains (s t : Span) : Bool := s.start ≤ t.start && t.stop ≤ s.stop

/-- Moves both ends of the span by `k` bytes. -/
def shift (s : Span) (k : Nat) : Span := ⟨s.start + k, s.stop + k⟩

/-- The lexicographic order on `(start, stop)`, used to sort splices. -/
def le (s t : Span) : Bool := s.start < t.start || (s.start == t.start && s.stop ≤ t.stop)

/-- The span written as a record, `Span { start: 1, end: 2 }`, as fault messages show it. -/
def describe (s : Span) : String :=
  "Span \x7b start: " ++ toString s.start ++ ", end: " ++ toString s.stop ++ " \x7d"

@[simp] theorem length_mk (a b : Nat) : (Span.mk a b).length = b - a := rfl

@[simp] theorem shift_start (s : Span) (k : Nat) : (s.shift k).start = s.start + k := rfl

@[simp] theorem shift_stop (s : Span) (k : Nat) : (s.shift k).stop = s.stop + k := rfl

end Span

end ShaderLink
