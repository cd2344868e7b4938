import ShaderLink.Proofs.SourceMap.Merge
import Mathlib.Data.List.Chain

/-!
# What compaction leaves

`compact` puts a map into a normal form, whatever order its entries come in, overlapping or
empty: no empty entry, entries ordered by destination start, and no two neighbours that
`compact` would join (`MapEntry.joinsWith`). Compacting again changes nothing. When the
non-empty entries tile the destination in some order, the compacted map passes the coverage
check and answers each position as the entry covering it did.

The facts come from `Compact`: the join loop's invariant gives the normal form
(`compactEntries_spec`), which a second compaction leaves as it is
(`compactEntries_compactEntries`); a tiling is kept, and with it where each position goes
(`Tiled.compact`, `Tiled.compact_image`). The join loop checks neighbours on its reversed
accumulator; `unjoinable_reverse_iff` reads that as a chain condition on the entries in order.

Destinations must run forwards (`start ≤ stop`, as every span the library builds does): a
reversed destination is not empty, and joining it can leave an empty entry that a second
compaction drops.
-/

namespace ShaderLink

namespace SourceMap

/-- No entry joins the one after it: the join loop's condition on its reversed accumulator is a
chain condition on the entries in order. -/
theorem unjoinable_iff_isChain : ∀ l : List MapEntry,
    Unjoinable l ↔ l.IsChain fun y x => x.joinsWith y = false
  | [] => iff_of_true trivial .nil
  | [_] => iff_of_true trivial (.singleton _)
  | y :: x :: rest => by
    rw [List.isChain_cons_cons, ← unjoinable_iff_isChain (x :: rest)]
    rfl

theorem unjoinable_reverse_iff (l : List MapEntry) :
    Unjoinable l.reverse ↔ l.IsChain fun x y => x.joinsWith y = false := by
  rw [unjoinable_iff_isChain, List.isChain_reverse]

/-- **Compaction normal form.** For every map whose destinations run forwards, in any order:
compacting twice is compacting once, and the compacted entries have non-empty destinations, are
ordered by destination start, and no two neighbours join. For every map whose non-empty entries
tile its destination in some order, the compacted map passes the coverage check and sends each
position of the destination where the entry of the map covering it does. -/
theorem compact_normal_form (m : SourceMap) :
    ((∀ e ∈ m.entries, e.destSpan.start ≤ e.destSpan.stop) →
      m.compact.compact = m.compact ∧
        (∀ x ∈ m.compact.entries, x.destSpan.start < x.destSpan.stop) ∧
        m.compact.entries.toList.Pairwise (fun x y => x.destSpan.start ≤ y.destSpan.start) ∧
        m.compact.entries.toList.IsChain fun x y => x.joinsWith y = false) ∧
    (m.Tiled → m.compact.checkCoverage = none ∧
      ∀ p < m.destSize, ∀ f ∈ m.entries, f.Covers p → m.compact.destToSrc? p = some (f.image p)) := by
  refine ⟨fun hfw => ?_, fun htiled => ⟨?_, fun p hp f hf hfp => ?_⟩⟩
  · have hfw' : ∀ e ∈ m.entries.toList, e.destSpan.start ≤ e.destSpan.stop :=
      fun e he => hfw e (Array.mem_toList_iff.1 he)
    obtain ⟨hfilled, hsorted, hunjoin⟩ := compactEntries_spec _ hfw'
    rw [compact_entries_toList]
    refine ⟨?_, fun x hx => hfilled x (compact_entries_toList m ▸ Array.mem_toList_iff.2 hx), hsorted,
      (unjoinable_reverse_iff _).1 hunjoin⟩
    simp only [compact, List.toList_toArray, compactEntries_compactEntries _ hfw']
  · exact checkCoverage_of_tiles htiled.compact
  · -- the compacted entry covering `p` answers it as the entry of the map covering it
    obtain ⟨x, hx, hxp⟩ := htiled.compact.exists_covers (Nat.zero_le p) hp
    have hxm : x ∈ m.compact.entries := Array.mem_toList_iff.1 hx
    rw [destToSrc?_of_covers htiled.compact hxm hxp, (htiled.compact_image hxm hf hxp hfp).1]

/-- Three pieces of one text stored out of order, a stray empty entry among them, and a
replacement. -/
def scrambled : SourceMap :=
  ⟨"out", "abcdefg", #[⟨"t", ⟨2, 4⟩, ⟨2, 4⟩⟩, ⟨"u", ⟨9, 9⟩, ⟨5, 5⟩⟩, ⟨"t", ⟨0, 2⟩, ⟨0, 2⟩⟩,
    ⟨"r", ⟨0, 1⟩, ⟨4, 7⟩⟩]⟩

/-- The copies of `scrambled` join into one, and position `3` still goes to `t` at `3`. -/
theorem scrambled_compacts :
    (∀ e ∈ scrambled.entries, e.destSpan.start ≤ e.destSpan.stop) ∧ scrambled.Tiled ∧
      scrambled.compact.compact = scrambled.compact ∧
      scrambled.compact.entries.size = 2 ∧ scrambled.compact.destToSrc? 3 = some ⟨"t", 3⟩ := by
  have hfw : ∀ e ∈ scrambled.entries, e.destSpan.start ≤ e.destSpan.stop := by decide
  have htiled : scrambled.Tiled :=
    ⟨[⟨"t", ⟨0, 2⟩, ⟨0, 2⟩⟩, ⟨"t", ⟨2, 4⟩, ⟨2, 4⟩⟩, ⟨"r", ⟨0, 1⟩, ⟨4, 7⟩⟩], by decide, by decide⟩
  obtain ⟨hnormal, -⟩ := compact_normal_form scrambled
  obtain ⟨-, hlookup⟩ := (compact_normal_form scrambled).2 htiled
  refine ⟨hfw, htiled, (hnormal hfw).1, by decide,
    hlookup 3 (by decide) ⟨"t", ⟨2, 4⟩, ⟨2, 4⟩⟩ (by simp [scrambled]) (by decide)⟩

/-- A copy whose destination runs backwards joins its neighbour into an empty entry, which a
second compaction drops. -/
example :
    let m : SourceMap := ⟨"out", "abcde", #[⟨"t", ⟨0, 5⟩, ⟨0, 5⟩⟩, ⟨"t", ⟨5, 5⟩, ⟨5, 0⟩⟩]⟩
    m.compact.entries.size = 1 ∧ m.compact.compact.entries.size = 0 := by
  decide

end SourceMap

end ShaderLink
