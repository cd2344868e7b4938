import ShaderLink.SourceMap.Basic

/-!
# Splicing text

A splice replaces a span of a text by a replacement: an empty replacement deletes, an empty
span inserts. `splice text id splices bounds` applies a set of splices at once and returns the
new text as the destination of a source map whose entries point into `text`, named `id`.

Only the part of the text inside `bounds` (all of it by default) is kept, and splices that do
not lie inside `bounds` are dropped. The rest are applied in order of `(start, stop)`; two of
them that overlap are a fault, reported at the later one. The text between splices is copied,
each replacement is one entry pointing at the span it replaces, and the map is compacted.
-/

namespace ShaderLink

/-- Replaces `span` of a text by `replacement`. -/
structure Splice where
  span : Span
  replacement : String
deriving DecidableEq, Repr, Inhabited

/-- The name of a text after splicing, `id#sliced`. -/
def splicedId (id : String) : String := id ++ "#sliced"

/-- Applies sorted splices from byte `position` on, appending to `m`. -/
def spliceFrom (text id : String) :
    List Splice → Nat → SourceMap → Except Fault (Nat × SourceMap)
  | [], position, m => pure (position, m)
  | s :: ss, position, m => do
    if s.span.start < position then throw (.overlappingSplice s.span)
    let m ← m.addCopy text id ⟨position, s.span.start⟩
    spliceFrom text id ss s.span.stop (m.add s.replacement id s.span)

/-- Applies the splices inside `bounds` (default: the whole text) to that part of `text`. -/
def splice (text id : String) (splices : List Splice) (bounds : Option Span) :
    Except Fault SourceMap := do
  let b := bounds.getD ⟨0, text.utf8ByteSize⟩
  let kept := splices.filter fun s => b.contains s.span
  let sorted := sortBy (fun s t => s.span.le t.span) kept
  let (position, m) ← spliceFrom text id sorted b.start (SourceMap.empty (splicedId id))
  if b.stop < position then throw .reversedSpan
  let m ← m.addCopy text id ⟨position, b.stop⟩
  pure m.compact

end ShaderLink
