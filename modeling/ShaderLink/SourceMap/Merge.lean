import ShaderLink.SourceMap.Basic

/-!
# Composing source maps

When a pass edits a text that itself came from a map, the two maps compose: `inner.merge
outer` maps the destination of `outer` back to the sources of `inner`, for the entries of
`outer` that point at `inner`'s destination; entries of `outer` that point elsewhere are kept.

A copy entry of `outer` is cut into pieces along the entries of `inner` it runs through, each
piece a copy or the whole of a replacement. Any other entry maps its two ends through `inner`
and must land in one source. Positions that `inner` does not cover are faults, as is a
replacement whose ends fall into two sources.
-/

namespace ShaderLink

namespace SourceMap

/-- Where a destination position of the map ends up as the *end* of a range: the entry that
ends at or after it. A map with neither text nor entries sends everything to its own start. -/
def mapEnd (m : SourceMap) (pos : Nat) : Except Fault SourcePosition :=
  if m.dest.isEmpty && m.entries.isEmpty then pure ⟨m.id, 0⟩
  else
    match m.entryEndingAtOrAfter? pos with
    | none => throw (.uncovered pos m.id)
    | some e =>
      if e.isCopy && pos < e.destSpan.start then throw .negativeOffset
      else pure ⟨e.src, e.offsetOf pos e.srcSpan.stop⟩

/-- Where a destination position of the map ends up as the *start* of a range: the entry
containing it, else the same as for an end. -/
def mapStart (m : SourceMap) (pos : Nat) : Except Fault SourcePosition :=
  match m.entryContaining? pos with
  | some e => pure ⟨e.src, e.offsetOf pos e.srcSpan.start⟩
  | none => m.mapEnd pos

/-- The pieces of a copy entry `outer` of the outer map, from source position `pos` on, cut
along the entries of `m` that contain them. -/
def copyPieces (m : SourceMap) (outer : MapEntry) (pos : Nat) : Except Fault (List MapEntry) :=
  if pos < outer.srcSpan.stop then
    match m.entryContaining? pos with
    | none => throw (.uncovered pos m.id)
    | some e =>
      let pieceEnd := min e.destSpan.stop outer.srcSpan.stop
      if pieceEnd < pos then throw .negativeOffset
      else if pieceEnd = pos then throw .stalled
      else
        let width := pieceEnd - pos
        let destStart := outer.destSpan.start + (pos - outer.srcSpan.start)
        let srcSpan :=
          if e.isCopy then
            let s := e.srcSpan.start + (pos - e.destSpan.start)
            ⟨s, s + width⟩
          else e.srcSpan
        let piece : MapEntry := ⟨e.src, srcSpan, ⟨destStart, destStart + width⟩⟩
        return piece :: (← m.copyPieces outer pieceEnd)
  else pure []
termination_by outer.srcSpan.stop - pos
decreasing_by omega

/-- The entries that one entry of the outer map becomes, with `m` the compacted inner map. -/
def mergeEntry (m : SourceMap) (e : MapEntry) : Except Fault (List MapEntry) :=
  if e.src != m.id then pure [e]
  else if e.isCopy && !e.srcSpan.isEmpty then m.copyPieces e e.srcSpan.start
  else do
    let start ← m.mapStart e.srcSpan.start
    let stop ← if e.srcSpan.isEmpty then pure start else m.mapEnd e.srcSpan.stop
    if start.src != stop.src then throw (.mixedSources e.destSpan)
    pure [⟨start.src, ⟨start.offset, max stop.offset start.offset⟩, e.destSpan⟩]

/-- Composes two maps: the destination of `outer`, mapped back through `inner` wherever
`outer` points at `inner`'s destination. -/
def merge (inner outer : SourceMap) : Except Fault SourceMap := do
  let m := inner.compact
  let pieces ← outer.entries.toList.mapM m.mergeEntry
  pure (SourceMap.compact ⟨outer.id, outer.dest, pieces.flatten.toArray⟩)

end SourceMap

end ShaderLink
