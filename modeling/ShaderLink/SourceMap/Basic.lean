import ShaderLink.Fault
import ShaderLink.Sorting
import ShaderLink.Text.Offset

/-!
# Source maps

A source map records where each part of one destination text came from. It is a list of
entries, each pairing a span of the destination with a span of a named source. An entry whose
two spans have the same length is a *copy* and maps byte for byte; any other entry is a
*replacement* and maps only as a whole.

Maps are built by appending fragments (`add`, `addCopy`) or whole maps (`append`), and tidied
by `compact`, which drops empty entries, orders the rest by destination and joins neighbouring
copies of contiguous source text. `destToSrc?` finds where a destination byte came from, and
`checkCoverage` tells whether the entries partition the destination exactly.

Lookups use a halving search over the stored entries (`settle`); on entries ordered by
destination, as `compact` leaves them, it finds the first entry that ends after a position.
-/

namespace ShaderLink

/-- One piece of a source map: destination bytes and the source bytes they came from. -/
structure MapEntry where
  src : String
  srcSpan : Span
  destSpan : Span
deriving DecidableEq, Repr, Inhabited

/-- A position in a named source. -/
structure SourcePosition where
  src : String
  offset : Nat
deriving DecidableEq, Repr, Inhabited

namespace MapEntry

/-- A copy maps byte for byte: its source and destination spans have one length. -/
def isCopy (e : MapEntry) : Bool := e.srcSpan.length == e.destSpan.length

/-- The source offset of a destination position: byte for byte in a copy, `fallback` in a
replacement. -/
def offsetOf (e : MapEntry) (pos fallback : Nat) : Nat :=
  if e.isCopy then e.srcSpan.start + (pos - e.destSpan.start) else fallback

/-- Two neighbours that `compact` joins: copies of one source, contiguous in both texts. -/
def joinsWith (prev e : MapEntry) : Bool :=
  prev.src == e.src && prev.isCopy && e.isCopy && prev.srcSpan.stop == e.srcSpan.start &&
    prev.destSpan.stop == e.destSpan.start

end MapEntry

/-- A map from one destination text, named `id`, back to the texts it was built from. -/
structure SourceMap where
  id : String
  dest : String
  entries : Array MapEntry
deriving DecidableEq, Repr, Inhabited

/-- Why the entries of a map do not partition its destination. -/
inductive CoverageError where
  | gap (start stop : Nat)
  | overlap (pos : Nat)
  | overrun (covered len : Nat)
deriving DecidableEq, Repr, Inhabited

/-- The report of a coverage error. -/
def CoverageError.message : CoverageError → String
  | .gap a b =>
    "destination bytes " ++ toString a ++ ".." ++ toString b ++ " are not covered by any entry"
  | .overlap n => "entries overlap at destination byte " ++ toString n
  | .overrun c l =>
    "entries cover " ++ toString c ++ " bytes past the destination length " ++ toString l

/-- The search for the end of a prefix of `xs` whose elements satisfy `p`: the candidate
range `[base, base + size)` is halved, keeping the upper half while its first element
satisfies `p`. -/
def settleFrom {α : Type} (xs : Array α) (p : α → Bool) (base size : Nat) : Nat :=
  if 1 < size then
    let half := size / 2
    let mid := base + half
    settleFrom xs p (if (xs[mid]?.map p).getD false then mid else base) (size - half)
  else base
termination_by size
decreasing_by omega

/-- The index where a halving search settles for a predicate on the elements of `xs`. When
the elements satisfying `p` form a prefix, it is that prefix's length. -/
def settle {α : Type} (xs : Array α) (p : α → Bool) : Nat :=
  if xs.size = 0 then 0
  else
    let base := settleFrom xs p 0 xs.size
    base + (if (xs[base]?.map p).getD false then 1 else 0)

namespace SourceMap

/-- A map with an empty destination and no entries. -/
def empty (id : String) : SourceMap := ⟨id, "", #[]⟩

/-- The byte length of the destination. -/
def destSize (m : SourceMap) : Nat := m.dest.utf8ByteSize

/-- Appends `fragment` to the destination and attributes it to `srcSpan` of `src`. -/
def add (m : SourceMap) (fragment src : String) (srcSpan : Span) : SourceMap :=
  let start := m.destSize
  let dest := m.dest ++ fragment
  { m with dest, entries := m.entries.push ⟨src, srcSpan, ⟨start, dest.utf8ByteSize⟩⟩ }

/-- Appends `fragment`, attributed to the bytes `[start, stop)` of `src`; a reversed range is
a fault. -/
def addRange (m : SourceMap) (fragment src : String) (start stop : Nat) :
    Except Fault SourceMap :=
  if start ≤ stop then pure (m.add fragment src ⟨start, stop⟩) else throw .reversedSpan

/-- Appends the bytes `span` of `text`, unchanged, as a copy of `src`. -/
def addCopy (m : SourceMap) (text src : String) (span : Span) : Except Fault SourceMap :=
  match Text.sliceString? text span with
  | some piece => pure (m.add piece src span)
  | none => throw .badSlice

/-- A map whose destination is an unchanged copy of `text`, the source `src`. -/
def identity (id src text : String) : SourceMap :=
  (empty id).add text src ⟨0, text.utf8ByteSize⟩

/-- Appends the destination and the entries of another map. -/
def append (m other : SourceMap) : SourceMap :=
  let k := m.destSize
  { m with
    dest := m.dest ++ other.dest
    entries := m.entries ++ other.entries.map fun e => { e with destSpan := e.destSpan.shift k } }

/-- The largest offset a map holds, 2⁶⁴ - 1: offsets are 64-bit words. -/
def maxOffset : Nat := 18446744073709551615

/-- Appends another map whose entries, once shifted past this destination, stay within
`maxOffset`; one that would pass it is a fault. -/
def appendWithin (m other : SourceMap) : Except Fault SourceMap :=
  if other.entries.any fun e => maxOffset < e.destSpan.stop + m.destSize then
    throw .offsetOverflow
  else pure (m.append other)

/-- Adds an entry to a reversed list of compacted entries, joining it to the last one when
they are neighbouring copies. -/
def joinInto (acc : List MapEntry) (e : MapEntry) : List MapEntry :=
  match acc with
  | prev :: rest =>
    if prev.joinsWith e then
      { prev with
        srcSpan := ⟨prev.srcSpan.start, e.srcSpan.stop⟩
        destSpan := ⟨prev.destSpan.start, e.destSpan.stop⟩ } :: rest
    else e :: acc
  | [] => [e]

/-- Drops entries with empty destination, orders the rest stably by destination start, and
joins neighbouring copies of contiguous source text. -/
def compactEntries (es : List MapEntry) : List MapEntry :=
  let kept := es.filter fun e => !e.destSpan.isEmpty
  let sorted := sortBy (fun a b => a.destSpan.start ≤ b.destSpan.start) kept
  (sorted.foldl joinInto []).reverse

/-- The map with its entries compacted. -/
def compact (m : SourceMap) : SourceMap :=
  { m with entries := (compactEntries m.entries.toList).toArray }

/-- The entry whose destination contains `pos`, as the halving search finds it. -/
def entryContaining? (m : SourceMap) (pos : Nat) : Option MapEntry :=
  let i := settle m.entries fun e => e.destSpan.stop ≤ pos
  m.entries[i]?.filter fun e => e.destSpan.start ≤ pos

/-- The entry whose destination ends at or after `pos` and starts before it (or anywhere,
for position zero), as the halving search finds it. -/
def entryEndingAtOrAfter? (m : SourceMap) (pos : Nat) : Option MapEntry :=
  let i := settle m.entries fun e => e.destSpan.stop < pos
  m.entries[i]?.filter fun e => e.destSpan.start < pos || pos == 0

/-- Where a destination position came from: the entry containing it, or the last entry when
the position is that entry's end. -/
def destToSrc? (m : SourceMap) (pos : Nat) : Option SourcePosition :=
  let last? := m.entries.back?.filter fun e => pos == e.destSpan.stop
  ((m.entryContaining? pos).or last?).map fun e => ⟨e.src, e.offsetOf pos e.srcSpan.start⟩

/-- Walks the non-empty entries in stored order, with `covered` the destination bytes
accounted for so far. -/
def coverageFrom (len : Nat) : List MapEntry → Nat → Option CoverageError
  | [], covered =>
    if covered < len then some (.gap covered len)
    else if len < covered then some (.overrun covered len)
    else none
  | e :: es, covered =>
    if e.destSpan.isEmpty then coverageFrom len es covered
    else if covered < e.destSpan.start then some (.gap covered e.destSpan.start)
    else if e.destSpan.start < covered then some (.overlap e.destSpan.start)
    else coverageFrom len es e.destSpan.stop

/-- Checks that the non-empty entries, in stored order, partition the destination. -/
def checkCoverage (m : SourceMap) : Option CoverageError :=
  coverageFrom m.destSize m.entries.toList 0

end SourceMap

end ShaderLink
