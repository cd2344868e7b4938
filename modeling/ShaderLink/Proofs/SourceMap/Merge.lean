import ShaderLink.Proofs.SourceMap.Compact

/-!
# Composing source maps

`inner.merge outer` maps the destination of `outer` back through `inner` wherever `outer`
points at `inner`'s destination. This module proves that it does so without a fault and says
where every position of the result goes.

The hypotheses are what a caller of `merge` promises:

* the non-empty entries of `inner` tile its destination, in some order (`Tiled`);
* `outer` passes the coverage check, and its spans run forwards;
* the entries of `outer` that point into `inner` stay inside `inner`'s destination;
* a replacement of `outer` that points into `inner` covers text of a single source of `inner`
  (`OneSourceOver`); a map with one source meets this for every span.

The proof follows `merge`. The inner map is compacted first, and by `Compact` its entries then
tile its destination in stored order, each answering a position as the entry of `inner` it
came from (`Tiled.compact_image`). Each entry of `outer` becomes pieces (`mergeEntry_spec`):
itself when it points elsewhere; the cuts of a copy along the inner entries it runs through
(`copyPieces_spec`, by induction on the text still to cut); or one replacement spanning the
images of its two ends. The pieces of an entry tile its destination and answer its positions
as `EntryAnswer` says, so all pieces together tile `outer`'s destination, and compaction keeps
both facts (`merge_spec`).
-/

namespace ShaderLink

namespace SourceMap

/-- The non-empty entries of the map tile its destination, in some order. -/
def Tiled (m : SourceMap) : Prop :=
  ∃ l, (m.entries.toList.filter fun e => !e.destSpan.isEmpty).Perm l ∧ Tiles l 0 m.destSize

/-- The entries of the map that cover positions of `s` all name one source. -/
def OneSourceOver (m : SourceMap) (s : Span) : Prop :=
  ∀ f ∈ m.entries, ∀ g ∈ m.entries, ∀ p q, s.start ≤ p → p < s.stop → s.start ≤ q →
    q < s.stop → f.Covers p → g.Covers q → f.src = g.src

/-- What `inner.merge outer` asks of its two maps: the inner map tiles its destination, all
spans run forwards, the outer map passes the coverage check, and each outer entry pointing into
the inner destination stays inside it and, when a replacement, covers text of one inner source. -/
structure Composable (inner outer : SourceMap) : Prop where
  inner_tiled : inner.Tiled
  inner_forward : inner.Forward
  outer_forward : outer.Forward
  outer_covered : outer.checkCoverage = none
  within : ∀ e ∈ outer.entries, e.src = inner.id → e.srcSpan.stop ≤ inner.destSize
  one_source : ∀ e ∈ outer.entries, e.src = inner.id → e.isCopy = false →
    inner.OneSourceOver e.srcSpan

@[simp] theorem compact_id (m : SourceMap) : m.compact.id = m.id := rfl

@[simp] theorem compact_dest (m : SourceMap) : m.compact.dest = m.dest := rfl

@[simp] theorem compact_destSize (m : SourceMap) : m.compact.destSize = m.destSize := rfl

@[simp] theorem compact_entries_toList (m : SourceMap) :
    m.compact.entries.toList = compactEntries m.entries.toList := by
  simp [compact]

/-- A map whose non-empty entries tile a range is compacted by one compaction. -/
theorem compact_compact_of_tiles {m : SourceMap} {a b : Nat}
    (h : Tiles (m.entries.toList.filter fun e => !e.destSpan.isEmpty) a b) :
    m.compact.compact = m.compact := by
  have hidem := compactEntries_compactEntries _ fun x hx => Nat.le_of_lt (h.bounds_of_mem x hx).2.1
  rw [compactEntries_filter] at hidem
  simp only [compact, List.toList_toArray, hidem]

/-- The compacted entries of a tiled map tile its destination in stored order. -/
theorem Tiled.compact {m : SourceMap} (h : m.Tiled) :
    Tiles m.compact.entries.toList 0 m.destSize := by
  obtain ⟨l, hperm, hl⟩ := h
  rw [compact_entries_toList]
  exact compactEntries_tiles hperm hl

/-- A compacted entry of a tiled map answers a position as the entry of the map covering it
does, is a copy exactly when that entry is, and is that entry when it is a replacement. -/
theorem Tiled.compact_image {m : SourceMap} (h : m.Tiled) {x f : MapEntry}
    (hx : x ∈ m.compact.entries) (hf : f ∈ m.entries) {q : Nat} (hxq : x.Covers q)
    (hfq : f.Covers q) :
    x.image q = f.image q ∧ x.isCopy = f.isCopy ∧ (x.isCopy = false → x = f) := by
  obtain ⟨l, hperm, hl⟩ := h
  have hmem : ∀ g ∈ m.entries, ∀ q, g.Covers q → g ∈ l := fun g hg q hgq =>
    hperm.subset (List.mem_filter.2 ⟨by simpa using hg, MapEntry.filled_of_covers hgq⟩)
  have hx' : x ∈ compactEntries m.entries.toList := by
    rw [← compact_entries_toList]
    exact Array.mem_toList_iff.2 hx
  -- the entries of `m` answer as the entry of the tiling covering the position
  have hagree : Agrees m.entries.toList fun q y => ∀ g ∈ l, g.Covers q → y = g.image q := by
    intro g hg q hgq g' hg' hg'q
    rw [hl.eq_of_covers (hmem g (by simpa using hg) q hgq) hg' hgq hg'q]
  have himage := compactEntries_agrees hperm hl hagree x hx' q hxq f (hmem f hf q hfq) hfq
  exact ⟨himage, compactEntries_origin hperm hl hx' (hmem f hf q hfq) hxq hfq⟩

/-- Each position of a tiled map's destination lies in one of its entries. -/
theorem Tiled.exists_covers {m : SourceMap} (h : m.Tiled) {q : Nat} (hq : q < m.destSize) :
    ∃ f ∈ m.entries, f.Covers q := by
  obtain ⟨l, hperm, hl⟩ := h
  obtain ⟨f, hf, hcov⟩ := hl.exists_covers (Nat.zero_le q) hq
  exact ⟨f, Array.mem_toList_iff.1 (List.mem_filter.1 (hperm.symm.subset hf)).1, hcov⟩

/-- The replacements among the compacted entries of a tiled map with forward spans run
forwards: they are entries of the map. -/
theorem Tiled.compact_forward {m : SourceMap} (h : m.Tiled) (hfw : m.Forward) :
    ∀ x ∈ m.compact.entries, x.isCopy = false → x.srcSpan.start ≤ x.srcSpan.stop := by
  intro x hx hxc
  have hxb := h.compact.bounds_of_mem x (Array.mem_toList_iff.2 hx)
  obtain ⟨f, hf, hfc⟩ := h.exists_covers (q := x.destSpan.start) (by omega)
  obtain ⟨-, -, hxf⟩ := h.compact_image hx hf ⟨Nat.le_refl _, hxb.2.1⟩ hfc
  rw [hxf hxc]
  exact (hfw f hf).1

/-- Where a tiled map has one source over a span, so has its compaction. -/
theorem Tiled.oneSourceOver_compact {m : SourceMap} (h : m.Tiled) {s : Span}
    (hs : m.OneSourceOver s) : m.compact.OneSourceOver s := by
  intro f' hf' g' hg' p q hp₁ hp₂ hq₁ hq₂ hfp hgq
  obtain ⟨f, hf, hfc⟩ := h.exists_covers (h.compact.covers_bounds (Array.mem_toList_iff.2 hf') hfp).2
  obtain ⟨g, hg, hgc⟩ := h.exists_covers (h.compact.covers_bounds (Array.mem_toList_iff.2 hg') hgq).2
  have hfi := (h.compact_image hf' hf hfp hfc).1
  have hgi := (h.compact_image hg' hg hgq hgc).1
  calc f'.src = (f'.image p).src := rfl
    _ = f.src := by rw [hfi, MapEntry.image_src]
    _ = g.src := hs f hf g hg p q hp₁ hp₂ hq₁ hq₂ hfc hgc
    _ = g'.src := by rw [← MapEntry.image_src g' q, hgi, MapEntry.image_src]

/-! ### Where the lookups of a tiled map land -/

variable {m : SourceMap}

/-- A range may start anywhere up to the end of a map tiling its destination. -/
theorem mapStart_ok (h : Tiles m.entries.toList 0 m.destSize) {pos : Nat} (hpos : pos < m.destSize) :
    ∃ f ∈ m.entries, f.Covers pos ∧ m.mapStart pos = .ok (f.image pos) := by
  obtain ⟨f, hf, hcov⟩ := h.exists_covers (Nat.zero_le pos) hpos
  exact ⟨f, by simpa using hf, hcov, mapStart_of_covers h (by simpa using hf) hcov⟩

theorem dest_isEmpty_iff (m : SourceMap) : m.dest.isEmpty = true ↔ m.destSize = 0 := by
  simp [destSize, String.isEmpty_iff, String.utf8ByteSize_eq_zero_iff]

/-- A range may end anywhere up to the end of a map tiling its destination; a positive end
maps through the entry covering the byte before it. -/
theorem mapEnd_ok (h : Tiles m.entries.toList 0 m.destSize) {pos : Nat} (hpos : pos ≤ m.destSize) :
    ∃ t, m.mapEnd pos = .ok t ∧
      ∀ f ∈ m.entries, 0 < pos → f.Covers (pos - 1) → t.src = f.src := by
  rcases Nat.eq_zero_or_pos pos with rfl | hpos0
  · -- the end `0`: the first entry, or the map's own name when it has no entries
    cases hent : m.entries.toList with
    | nil =>
      have hsize : m.destSize = 0 := by
        rw [hent] at h
        exact h.symm
      have hemp : m.entries.isEmpty = true := by
        simpa [Array.isEmpty_iff, ← Array.toList_eq_nil_iff] using hent
      refine ⟨⟨m.id, 0⟩, ?_, fun f _ h0 => absurd h0 (Nat.lt_irrefl 0)⟩
      unfold mapEnd
      rw [(dest_isEmpty_iff m).2 hsize, hemp]
      rfl
    | cons g gs =>
      have hstart : g.destSpan.start = 0 := by rw [hent] at h; exact h.1
      have hne : m.entries.isEmpty = false := by
        cases hemp : m.entries.isEmpty
        · rfl
        · simp only [Array.isEmpty_iff] at hemp
          simp [hemp] at hent
      have h0 : m.entries[0]? = some g := by
        rw [← Array.getElem?_toList, hent]
        rfl
      refine ⟨⟨g.src, g.offsetOf 0 g.srcSpan.stop⟩, ?_, fun f _ h0 => absurd h0 (Nat.lt_irrefl 0)⟩
      unfold mapEnd
      rw [hne, Bool.and_false, if_neg (by simp), entryEndingAtOrAfter?_zero, h0]
      simp only
      rw [if_neg (by simp [hstart])]
      rfl
  · obtain ⟨f, hf, hcov⟩ := h.exists_covers (Nat.zero_le (pos - 1)) (by omega)
    have hf' : f ∈ m.entries := by simpa using hf
    refine ⟨_, mapEnd_of_covers h hpos0 hf' hcov, fun g hg _ hgcov => ?_⟩
    rw [h.eq_of_covers hf (by simpa using hg) hcov hgcov]

/-- Where a range starting at `pos` begins in the sources: through the entry covering `pos`,
or, at the end of the text, as a range ending there. -/
theorem mapStart_ok_of_le (h : Tiles m.entries.toList 0 m.destSize) {pos : Nat}
    (hpos : pos ≤ m.destSize) :
    ∃ s, m.mapStart pos = .ok s ∧ ∀ f ∈ m.entries, f.Covers pos → s = f.image pos := by
  rcases Nat.lt_or_ge pos m.destSize with hlt | hge
  · obtain ⟨f, hf, hcov, hok⟩ := mapStart_ok h hlt
    refine ⟨_, hok, fun g hg hgcov => ?_⟩
    rw [h.eq_of_covers (by simpa using hf) (by simpa using hg) hcov hgcov]
  · -- the end of the text: no entry covers it
    have hnone : m.entryContaining? pos = none := by
      cases hfound : m.entryContaining? pos with
      | none => rfl
      | some f =>
        have := ((entryContaining?_eq_some_iff h).1 hfound).2.2
        have := (h.bounds_of_mem f (by simpa using ((entryContaining?_eq_some_iff h).1 hfound).1)).2.2
        omega
    obtain ⟨t, ht, -⟩ := mapEnd_ok h hpos
    refine ⟨t, ?_, fun f hf hcov => ?_⟩
    · unfold mapStart
      rw [hnone]
      exact ht
    · have := (h.bounds_of_mem f (by simpa using hf)).2.2
      have := hcov.2
      omega

/-! ### The pieces of one entry -/

/-- What a piece of a copy `e` of the inner text says of a position `p` of `e`: through the
inner entry `f` that covers the copied position, byte for byte when `f` is a copy, somewhere
in `f`'s source span when it is a replacement. -/
def CopyAnswer (m : SourceMap) (e : MapEntry) (p : Nat) (x : SourcePosition) : Prop :=
  ∀ f ∈ m.entries, f.Covers (e.srcSpan.start + (p - e.destSpan.start)) →
    (f.isCopy = true → x = f.image (e.srcSpan.start + (p - e.destSpan.start))) ∧
    (f.isCopy = false → x.src = f.src ∧ f.srcSpan.start ≤ x.offset ∧ x.offset ≤ f.srcSpan.stop)

/-- What the pieces of an entry `e` of the outer map say of a position `p` of `e`: as `e` does
when it points elsewhere; through the inner map when it is a copy of the inner text; between
the images of its two ends when it is a replacement of inner text. -/
def EntryAnswer (m : SourceMap) (e : MapEntry) (p : Nat) (x : SourcePosition) : Prop :=
  (e.src ≠ m.id → x = e.image p) ∧
  (e.src = m.id → e.isCopy = true → CopyAnswer m e p x) ∧
  (e.src = m.id → e.isCopy = false → ∃ s t, m.mapStart e.srcSpan.start = .ok s ∧
    m.mapEnd e.srcSpan.stop = .ok t ∧ x.src = s.src ∧ s.offset ≤ x.offset ∧
      x.offset ≤ max s.offset t.offset)

/-- What a copy answers through the compacted inner map it answers through the inner map. -/
theorem Tiled.copyAnswer_of_compact {m : SourceMap} (h : m.Tiled) {e : MapEntry} {p : Nat}
    {x : SourcePosition} (hq : e.srcSpan.start + (p - e.destSpan.start) < m.destSize)
    (hx : m.compact.CopyAnswer e p x) : m.CopyAnswer e p x := by
  intro f hf hfq
  obtain ⟨f', hf', hf'q⟩ := h.compact.exists_covers (Nat.zero_le _) hq
  have hf'm : f' ∈ m.compact.entries := Array.mem_toList_iff.1 hf'
  obtain ⟨himage, hcopy, heq⟩ := h.compact_image hf'm hf hf'q hfq
  obtain ⟨hc, hr⟩ := hx f' hf'm hf'q
  refine ⟨fun hfc => ?_, fun hfc => ?_⟩
  · rw [hc (hcopy.trans hfc), himage]
  · rw [← heq (hcopy.trans hfc)]
    exact hr (hcopy.trans hfc)

/-- The piece that `copyPieces` cuts from a copy `e` at `pos`, inside the inner entry `J`,
up to `stop`. -/
def copyPiece (e J : MapEntry) (pos stop : Nat) : MapEntry :=
  ⟨J.src,
    if J.isCopy then ⟨J.srcSpan.start + (pos - J.destSpan.start),
      J.srcSpan.start + (pos - J.destSpan.start) + (stop - pos)⟩
    else J.srcSpan,
    ⟨e.destSpan.start + (pos - e.srcSpan.start),
      e.destSpan.start + (pos - e.srcSpan.start) + (stop - pos)⟩⟩

section copyPiece

variable {e J : MapEntry} {pos stop : Nat}

theorem copyPiece_destSpan :
    (copyPiece e J pos stop).destSpan = ⟨e.destSpan.start + (pos - e.srcSpan.start),
      e.destSpan.start + (pos - e.srcSpan.start) + (stop - pos)⟩ := rfl

/-- A piece cut from an inner copy is a copy, and maps byte for byte into that copy's source. -/
theorem copyPiece_image_of_isCopy (hJ : J.isCopy = true) (p : Nat) :
    (copyPiece e J pos stop).image p = ⟨J.src, J.srcSpan.start + (pos - J.destSpan.start) +
      (p - (e.destSpan.start + (pos - e.srcSpan.start)))⟩ := by
  have hpc : (copyPiece e J pos stop).isCopy = true := by
    rw [MapEntry.isCopy_iff]
    simp only [copyPiece, hJ, if_true]
    omega
  rw [MapEntry.image, MapEntry.offsetOf, if_pos hpc]
  simp only [copyPiece, hJ, if_true]

/-- A piece cut from an inner replacement lands inside that replacement's source span. -/
theorem copyPiece_image_of_not_isCopy (hJ : J.isCopy = false)
    (hfw : J.srcSpan.start ≤ J.srcSpan.stop) {p : Nat} (hp : (copyPiece e J pos stop).Covers p) :
    ((copyPiece e J pos stop).image p).src = J.src ∧
      J.srcSpan.start ≤ ((copyPiece e J pos stop).image p).offset ∧
      ((copyPiece e J pos stop).image p).offset ≤ J.srcSpan.stop := by
  obtain ⟨hp₁, hp₂⟩ := hp
  have hsrc : (copyPiece e J pos stop).srcSpan = J.srcSpan := by simp [copyPiece, hJ]
  rw [copyPiece_destSpan] at hp₁ hp₂
  refine ⟨rfl, ?_⟩
  rw [MapEntry.image_offset, hsrc, copyPiece_destSpan]
  split
  · next hpc =>
    -- a replacement piece that happens to be as long as its destination
    rw [MapEntry.isCopy_iff, hsrc, copyPiece_destSpan] at hpc
    simp only at hp₁ hp₂ hpc ⊢
    omega
  · omega

end copyPiece

theorem copyPieces_eq_cons {e J : MapEntry} {pos : Nat} {ps : List MapEntry}
    (hlt : pos < e.srcSpan.stop) (hJ : m.entryContaining? pos = some J)
    (hend : pos < min J.destSpan.stop e.srcSpan.stop)
    (hps : m.copyPieces e (min J.destSpan.stop e.srcSpan.stop) = .ok ps) :
    m.copyPieces e pos = .ok (copyPiece e J pos (min J.destSpan.stop e.srcSpan.stop) :: ps) := by
  rw [copyPieces, if_pos hlt, hJ]
  simp only
  rw [if_neg (by omega), if_neg (by omega), hps]
  rfl

/-- Cutting a copy of inner text from `pos` on along a tiling of the inner destination never
faults, and the pieces tile the rest of the copy's destination, each answering as the inner
entry it lies in. -/
theorem copyPieces_spec {L : Nat} (hm : Tiles m.entries.toList 0 L) {e : MapEntry}
    (hcopy : e.isCopy = true) (hfw : e.Forward) (hstop : e.srcSpan.stop ≤ L)
    (hsrc : ∀ f ∈ m.entries, f.isCopy = false → f.srcSpan.start ≤ f.srcSpan.stop) :
    ∀ pos, e.srcSpan.start ≤ pos → pos ≤ e.srcSpan.stop →
      ∃ ps, m.copyPieces e pos = .ok ps ∧
        Tiles ps (e.destSpan.start + (pos - e.srcSpan.start)) e.destSpan.stop ∧
        Agrees ps (CopyAnswer m e) := by
  have hlen := (MapEntry.isCopy_iff e).1 hcopy
  obtain ⟨hsfw, hdfw⟩ := hfw
  intro pos
  -- induction on the source text of the copy still to cut
  induction h : e.srcSpan.stop - pos using Nat.strongRecOn generalizing pos with
  | ind n ih =>
    intro hlo hhi
    rcases Nat.lt_or_ge pos e.srcSpan.stop with hlt | hge
    · obtain ⟨J, hJmem, hJcov⟩ := hm.exists_covers (Nat.zero_le pos) (by omega)
      have hJ : m.entryContaining? pos = some J :=
        (entryContaining?_eq_some_iff hm).2 ⟨by simpa using hJmem, hJcov⟩
      obtain ⟨hJ₁, hJ₂⟩ := hJcov
      have hend : pos < min J.destSpan.stop e.srcSpan.stop := by omega
      obtain ⟨ps, hps, htiles, hagree⟩ :=
        ih (e.srcSpan.stop - min J.destSpan.stop e.srcSpan.stop) (by omega) _ rfl (by omega)
          (Nat.min_le_right _ _)
      refine ⟨_, copyPieces_eq_cons hlt hJ hend hps, ?_, ?_⟩
      · refine ⟨rfl, by simp only [copyPiece]; omega, ?_⟩
        simp only [copyPiece]
        rw [show e.destSpan.start + (pos - e.srcSpan.start) + (min J.destSpan.stop e.srcSpan.stop - pos)
          = e.destSpan.start + (min J.destSpan.stop e.srcSpan.stop - e.srcSpan.start) by omega]
        exact htiles
      · intro x hx p hp
        rcases List.mem_cons.1 hx with rfl | hx
        · -- the piece lies in `J`, which is the one inner entry covering the copied position
          obtain ⟨hp₁, hp₂⟩ := hp
          simp only [copyPiece] at hp₁ hp₂
          have hqJ : J.Covers (e.srcSpan.start + (p - e.destSpan.start)) := by
            constructor <;> omega
          intro f hf hfq
          have hfJ := hm.eq_of_covers (by simpa using hf) hJmem hfq hqJ
          subst hfJ
          constructor
          · intro hfc
            rw [copyPiece_image_of_isCopy hfc, MapEntry.image, MapEntry.offsetOf, if_pos hfc]
            simp only [SourcePosition.mk.injEq, true_and]
            omega
          · intro hfc
            exact copyPiece_image_of_not_isCopy hfc (hsrc f hf hfc) ⟨hp₁, hp₂⟩
        · exact hagree x hx p hp
    · -- nothing left to cut
      have hpos : pos = e.srcSpan.stop := by omega
      subst hpos
      refine ⟨[], ?_, ?_, fun _ h => absurd h List.not_mem_nil⟩
      · rw [copyPieces, if_neg (Nat.lt_irrefl _)]
        rfl
      · simp only [tiles_nil]
        omega

/-- The one entry that a replacement of inner text becomes, from the images `s` and `t` of its
two ends. -/
def replacementPiece (e : MapEntry) (s t : SourcePosition) : MapEntry :=
  ⟨s.src, ⟨s.offset, max t.offset s.offset⟩, e.destSpan⟩

/-- A replacement piece answers between the image of the start and the later of the two
images. -/
theorem replacementPiece_image {e : MapEntry} {s t : SourcePosition} {p : Nat}
    (hp : (replacementPiece e s t).Covers p) :
    ((replacementPiece e s t).image p).src = s.src ∧
      s.offset ≤ ((replacementPiece e s t).image p).offset ∧
      ((replacementPiece e s t).image p).offset ≤ max t.offset s.offset := by
  obtain ⟨hp₁, hp₂⟩ := hp
  refine ⟨rfl, ?_⟩
  rw [MapEntry.image_offset]
  split
  · next hc =>
    rw [MapEntry.isCopy_iff] at hc
    simp only [replacementPiece] at hc hp₁ hp₂ ⊢
    omega
  · simp only [replacementPiece]
    omega

theorem mergeEntry_of_ne {e : MapEntry} (h : e.src ≠ m.id) : m.mergeEntry e = .ok [e] := by
  simp [mergeEntry, h]
  rfl

theorem mergeEntry_of_copy {e : MapEntry} (h : e.src = m.id) (hc : e.isCopy = true)
    (hne : e.srcSpan.isEmpty = false) : m.mergeEntry e = m.copyPieces e e.srcSpan.start := by
  simp [mergeEntry, h, hc, hne]

theorem mergeEntry_of_replacement {e : MapEntry} {s t : SourcePosition} (h : e.src = m.id)
    (hc : (e.isCopy && !e.srcSpan.isEmpty) = false) (hs : m.mapStart e.srcSpan.start = .ok s)
    (ht : m.mapEnd e.srcSpan.stop = .ok t) (hst : e.srcSpan.isEmpty = false → s.src = t.src) :
    m.mergeEntry e = .ok [replacementPiece e s (if e.srcSpan.isEmpty then s else t)] := by
  unfold mergeEntry
  rw [if_neg (by simp [h]), if_neg (by simp [hc]), hs]
  cases hemp : e.srcSpan.isEmpty
  · have hsrc := hst hemp
    simp only [if_false, Bool.false_eq_true, ht, bind, Except.bind, ← hsrc, bne_self_eq_false]
    rfl
  · simp only [if_true, pure, Except.pure, bind, Except.bind, bne_self_eq_false]
    rfl

/-- One entry of the outer map becomes pieces without a fault; the non-empty pieces tile the
entry's destination and each answers a position as `EntryAnswer` says. -/
theorem mergeEntry_spec (hm : Tiles m.entries.toList 0 m.destSize)
    (hsrc : ∀ f ∈ m.entries, f.isCopy = false → f.srcSpan.start ≤ f.srcSpan.stop)
    {e : MapEntry} (hfw : e.Forward) (hin : e.src = m.id → e.srcSpan.stop ≤ m.destSize)
    (hone : e.src = m.id → e.isCopy = false → m.OneSourceOver e.srcSpan) :
    ∃ ps, m.mergeEntry e = .ok ps ∧
      Tiles (ps.filter fun x => !x.destSpan.isEmpty) e.destSpan.start e.destSpan.stop ∧
      Agrees ps (m.EntryAnswer e) := by
  by_cases hid : e.src = m.id
  · by_cases hcopy : (e.isCopy && !e.srcSpan.isEmpty) = true
    · -- a copy of inner text: cut along the inner entries it runs through
      simp only [Bool.and_eq_true, Bool.not_eq_true'] at hcopy
      obtain ⟨hc, hne⟩ := hcopy
      obtain ⟨ps, hps, htiles, hagree⟩ :=
        copyPieces_spec hm hc hfw (hin hid) hsrc e.srcSpan.start (Nat.le_refl _) hfw.1
      rw [Nat.sub_self, Nat.add_zero] at htiles
      refine ⟨ps, (mergeEntry_of_copy hid hc hne).trans hps, ?_, fun x hx p hp => ?_⟩
      · rw [htiles.filter_filled]
        exact htiles
      · exact ⟨fun h => absurd hid h, fun _ _ => hagree x hx p hp,
          fun _ h => absurd (h.symm.trans hc) Bool.false_ne_true⟩
    · -- a replacement of inner text, or an empty copy: one piece between the images of its ends
      simp only [Bool.not_eq_true] at hcopy
      obtain ⟨s, hs, hsf⟩ := mapStart_ok_of_le hm (Nat.le_trans hfw.1 (hin hid))
      obtain ⟨t, ht, htf⟩ := mapEnd_ok hm (hin hid)
      have hst : e.srcSpan.isEmpty = false → s.src = t.src := by
        intro hemp
        have hc : e.isCopy = false := by simpa [hemp] using hcopy
        have hlt : e.srcSpan.start < e.srcSpan.stop := by
          simp only [Span.isEmpty, beq_eq_false_iff_ne] at hemp
          have := hfw.1
          omega
        obtain ⟨f, hf, hfc⟩ := hm.exists_covers (Nat.zero_le e.srcSpan.start)
          (by have := hin hid; omega)
        obtain ⟨g, hg, hgc⟩ := hm.exists_covers (Nat.zero_le (e.srcSpan.stop - 1))
          (by have := hin hid; omega)
        have hf' : f ∈ m.entries := by simpa using hf
        have hg' : g ∈ m.entries := by simpa using hg
        rw [hsf f hf' hfc, htf g hg' (by omega) hgc, MapEntry.image_src]
        exact hone hid hc f hf' g hg' _ _ (Nat.le_refl _) hlt (by omega) (by omega) hfc hgc
      have hstop : (if e.srcSpan.isEmpty then s else t).offset ≤ max s.offset t.offset := by
        split <;> omega
      refine ⟨_, mergeEntry_of_replacement hid hcopy hs ht hst,
        tiles_filter_singleton hfw.2, fun x hx p hp => ?_⟩
      rw [List.mem_singleton] at hx
      subst hx
      obtain ⟨hxs, hx₁, hx₂⟩ := replacementPiece_image hp
      refine ⟨fun h => absurd hid h, fun _ hc => ?_, fun _ _ => ⟨s, t, hs, ht, hxs, hx₁, ?_⟩⟩
      · -- an empty copy covers no position
        have hemp : e.srcSpan.isEmpty = true := by simpa [hc] using hcopy
        obtain ⟨hp₁, hp₂⟩ := hp
        rw [MapEntry.isCopy_iff] at hc
        simp only [Span.isEmpty, beq_iff_eq] at hemp
        simp only [replacementPiece] at hp₁ hp₂
        omega
      · omega
  · refine ⟨[e], mergeEntry_of_ne hid, tiles_filter_singleton hfw.2, fun x hx p _ => ?_⟩
    rw [List.mem_singleton] at hx
    subst hx
    exact ⟨fun _ => rfl, fun h => absurd h hid, fun h => absurd h hid⟩

/-! ### All pieces together -/

/-- Entries that each become pieces tiling their destination and answering as `R` become,
together, pieces that tile what the entries tile and answer as `R`. -/
theorem mapM_pieces {f : MapEntry → Except Fault (List MapEntry)}
    {R : Nat → SourcePosition → Prop} : ∀ {es : List MapEntry},
    (∀ e ∈ es, ∃ ps, f e = .ok ps ∧
      Tiles (ps.filter fun x => !x.destSpan.isEmpty) e.destSpan.start e.destSpan.stop ∧
        Agrees ps R) →
    ∃ pss, es.mapM f = .ok pss ∧ Agrees pss.flatten R ∧
      ∀ {a b : Nat}, Tiles (es.filter fun x => !x.destSpan.isEmpty) a b →
        Tiles (pss.flatten.filter fun x => !x.destSpan.isEmpty) a b
  | [], _ => ⟨[], rfl, fun _ h => absurd h List.not_mem_nil, fun h => h⟩
  | e :: es, h => by
    obtain ⟨ps, hps, htiles, hagree⟩ := h e List.mem_cons_self
    obtain ⟨pss, hpss, hagrees, hrest⟩ := mapM_pieces fun x hx => h x (List.mem_cons_of_mem _ hx)
    refine ⟨ps :: pss, ?_, ?_, ?_⟩
    · rw [List.mapM_cons, hps, hpss]
      rfl
    · rw [List.flatten_cons, agrees_append]
      exact ⟨hagree, hagrees⟩
    · intro a b hab
      rw [List.flatten_cons, List.filter_append]
      by_cases hne : (!e.destSpan.isEmpty) = true
      · simp only [List.filter_cons, hne, if_true, tiles_cons] at hab
        obtain ⟨h₁, -, h₃⟩ := hab
        exact tiles_append.2 ⟨e.destSpan.stop, h₁ ▸ htiles, hrest h₃⟩
      · -- an empty entry has no non-empty pieces
        simp only [List.filter_cons, hne] at hab
        have hemp : e.destSpan.start = e.destSpan.stop := by simpa [Span.isEmpty] using hne
        rw [hemp] at htiles
        rw [htiles.eq_nil_of_self, List.nil_append]
        exact hrest hab

/-- Merging two composable maps succeeds; the result is compacted, tiles the outer destination,
and answers each position as the pieces of the outer entry covering it do. -/
theorem merge_spec {inner outer : SourceMap} (h : Composable inner outer) :
    ∃ merged, inner.merge outer = .ok merged ∧ merged.id = outer.id ∧ merged.dest = outer.dest ∧
      merged.compact = merged ∧ Tiles merged.entries.toList 0 outer.destSize ∧
      Agrees merged.entries.toList fun p x =>
        ∀ e ∈ outer.entries, e.Covers p → inner.compact.EntryAnswer e p x := by
  have hm := h.inner_tiled.compact
  have hsrc := h.inner_tiled.compact_forward h.inner_forward
  have houter : Tiles (outer.entries.toList.filter fun x => !x.destSpan.isEmpty) 0
      outer.destSize :=
    (checkCoverage_eq_none_iff fun e he => (h.outer_forward e he).2).1 h.outer_covered
  have hentry : ∀ e ∈ outer.entries.toList, ∃ ps, inner.compact.mergeEntry e = .ok ps ∧
      Tiles (ps.filter fun x => !x.destSpan.isEmpty) e.destSpan.start e.destSpan.stop ∧
        Agrees ps fun p x => ∀ e ∈ outer.entries, e.Covers p → inner.compact.EntryAnswer e p x := by
    intro e he
    have he' : e ∈ outer.entries := Array.mem_toList_iff.1 he
    obtain ⟨ps, hps, htiles, hagree⟩ := mergeEntry_spec hm hsrc (h.outer_forward e he')
      (h.within e he') fun hid hc => h.inner_tiled.oneSourceOver_compact (h.one_source e he' hid hc)
    refine ⟨ps, hps, htiles, fun x hx p hp g hg hgp => ?_⟩
    -- the piece lies inside `e`, and `e` is the one outer entry covering `p`
    have hep : e.Covers p :=
      htiles.covers_bounds (List.mem_filter.2 ⟨hx, MapEntry.filled_of_covers hp⟩) hp
    have hge : g = e := houter.eq_of_covers
      (List.mem_filter.2 ⟨Array.mem_toList_iff.2 hg, MapEntry.filled_of_covers hgp⟩)
      (List.mem_filter.2 ⟨he, MapEntry.filled_of_covers hep⟩) hgp hep
    subst hge
    exact hagree x hx p hp
  obtain ⟨pss, hpss, hagree, hflat⟩ := mapM_pieces hentry
  have htiles := hflat houter
  refine ⟨compact ⟨outer.id, outer.dest, pss.flatten.toArray⟩, ?_, rfl, rfl,
    compact_compact_of_tiles htiles, ?_, ?_⟩
  · unfold merge
    dsimp only
    rw [hpss]
    rfl
  · rw [compact_entries_toList]
    exact compactEntries_tiles (List.Perm.refl _) htiles
  · rw [compact_entries_toList]
    exact compactEntries_agrees (List.Perm.refl _) htiles hagree

/-- The merged map answers every position of the outer destination, as the outer entry
covering it says. -/
theorem merged_destToSrc? {inner outer merged : SourceMap} (h : Composable inner outer)
    (hok : inner.merge outer = .ok merged) {p : Nat} (hp : p < outer.destSize) :
    ∃ x, merged.destToSrc? p = some x ∧
      ∀ e ∈ outer.entries, e.Covers p → inner.compact.EntryAnswer e p x := by
  obtain ⟨merged', hok', -, -, -, htiles, hagree⟩ := merge_spec h
  rw [hok] at hok'
  cases hok'
  obtain ⟨x, hx, hxp⟩ := htiles.exists_covers (Nat.zero_le p) hp
  exact ⟨x.image p, destToSrc?_of_covers htiles (Array.mem_toList_iff.1 hx) hxp, hagree x hx p hxp⟩

/-- Composing two composable maps succeeds, keeps the outer map's name and text, and gives a
compacted map that passes the coverage check. It sends each position `p` of the outer
destination where the outer entry `e` covering it says: as `e` itself when `e` points elsewhere;
through the inner entry covering the copied position when `e` copies inner text; between the
inner images of `e`'s two ends when `e` replaces inner text. -/
theorem merge_composes {inner outer : SourceMap} (h : Composable inner outer) :
    ∃ merged, inner.merge outer = .ok merged ∧ merged.id = outer.id ∧ merged.dest = outer.dest ∧
      merged.compact = merged ∧ merged.checkCoverage = none ∧
      ∀ p < outer.destSize, ∀ e ∈ outer.entries, e.Covers p →
        (e.src ≠ inner.id → merged.destToSrc? p = some (e.image p)) ∧
        (e.src = inner.id → e.isCopy = true →
          ∃ x, merged.destToSrc? p = some x ∧ inner.CopyAnswer e p x) ∧
        (e.src = inner.id → e.isCopy = false → ∃ s t,
          inner.compact.mapStart e.srcSpan.start = .ok s ∧
          inner.compact.mapEnd e.srcSpan.stop = .ok t ∧
          ∃ o, merged.destToSrc? p = some ⟨s.src, o⟩ ∧ s.offset ≤ o ∧ o ≤ max s.offset t.offset) := by
  obtain ⟨merged, hok, hid, hdest, hcompact, htiles, -⟩ := merge_spec h
  have hsize : merged.destSize = outer.destSize := by rw [destSize, hdest, destSize]
  have hfw : ∀ x ∈ merged.entries, x.destSpan.start ≤ x.destSpan.stop :=
    fun x hx => Nat.le_of_lt (htiles.bounds_of_mem x (Array.mem_toList_iff.2 hx)).2.1
  refine ⟨merged, hok, hid, hdest, hcompact, ?_, fun p hp e he hep => ?_⟩
  · rw [checkCoverage_eq_none_iff hfw, htiles.filter_filled, hsize]
    exact htiles
  obtain ⟨x, hlook, hx⟩ := merged_destToSrc? h hok hp
  obtain ⟨h₁, h₂, h₃⟩ := hx e he hep
  refine ⟨fun hne => by rw [hlook, h₁ hne], fun hin hc => ⟨x, hlook, ?_⟩, fun hin hc => ?_⟩
  · -- the copied position lies inside the inner destination
    have hq : e.srcSpan.start + (p - e.destSpan.start) < inner.destSize := by
      have hlen := (MapEntry.isCopy_iff e).1 hc
      have hwithin := h.within e he hin
      obtain ⟨hp₁, hp₂⟩ := hep
      have := h.outer_forward e he
      omega
    exact h.inner_tiled.copyAnswer_of_compact hq (h₂ hin hc)
  · obtain ⟨s, t, hs, ht, hsrc, hlo, hhi⟩ := h₃ hin hc
    exact ⟨s, t, hs, ht, x.offset, by rw [hlook, ← hsrc], hlo, hhi⟩

/-- Two maps that `merge` composes although their own lookups miss: the inner map stores its
entries out of order, and the outer map holds a stray empty entry past its end. -/
def unsortedPair : SourceMap := ⟨"in", "abcd", #[⟨"b", ⟨0, 2⟩, ⟨2, 4⟩⟩, ⟨"a", ⟨0, 2⟩, ⟨0, 2⟩⟩]⟩

/-- See `unsortedPair`: a copy of all of it, a stray empty entry, then two bytes of `y`. -/
def strayEmpty : SourceMap :=
  ⟨"out", "abcdxy", #[⟨"in", ⟨0, 4⟩, ⟨0, 4⟩⟩, ⟨"z", ⟨0, 0⟩, ⟨100, 100⟩⟩, ⟨"y", ⟨0, 2⟩, ⟨4, 6⟩⟩]⟩

theorem composable_unsortedPair_strayEmpty : Composable unsortedPair strayEmpty where
  inner_tiled := ⟨[⟨"a", ⟨0, 2⟩, ⟨0, 2⟩⟩, ⟨"b", ⟨0, 2⟩, ⟨2, 4⟩⟩], by decide, by decide⟩
  inner_forward := by decide
  outer_forward := by decide
  outer_covered := by decide
  within := by decide
  one_source := by
    -- the only entry pointing into the inner map is a copy
    intro e he hid hc
    simp only [strayEmpty, List.mem_toArray, List.mem_cons, List.not_mem_nil, or_false] at he
    rcases he with rfl | rfl | rfl <;> simp_all [MapEntry.isCopy, unsortedPair]

theorem merge_composes_unsortedPair :
    Composable unsortedPair strayEmpty ∧ ∃ merged, unsortedPair.merge strayEmpty = .ok merged ∧
      merged.checkCoverage = none :=
  ⟨composable_unsortedPair_strayEmpty,
    (merge_composes composable_unsortedPair_strayEmpty).imp fun _ h => ⟨h.1, h.2.2.2.2.1⟩⟩

/-- The merged map answers positions that the lookups of the two maps it composes miss: a
lookup searches the stored order, which neither map keeps, while the merged map is compacted. -/
theorem merge_answers_where_unsorted_lookups_miss :
    Composable unsortedPair strayEmpty ∧ ∃ merged, unsortedPair.merge strayEmpty = .ok merged ∧
      merged.destToSrc? 1 = some ⟨"a", 1⟩ ∧ unsortedPair.destToSrc? 1 = none ∧
      merged.destToSrc? 5 = some ⟨"y", 1⟩ ∧ strayEmpty.destToSrc? 5 = none := by
  have h := composable_unsortedPair_strayEmpty
  obtain ⟨merged, hok, -⟩ := merge_spec h
  refine ⟨h, merged, hok, ?_, by decide +kernel, ?_, by decide +kernel⟩
  · -- position 1 copies inner position 1, which the inner copy from "a" covers
    obtain ⟨x, hlook, hx⟩ := merged_destToSrc? h hok (p := 1) (by decide)
    have hcopy := h.inner_tiled.copyAnswer_of_compact (by decide)
      ((hx ⟨"in", ⟨0, 4⟩, ⟨0, 4⟩⟩ (by simp [strayEmpty]) (by decide)).2.1 rfl rfl)
    rw [hlook, (hcopy ⟨"a", ⟨0, 2⟩, ⟨0, 2⟩⟩ (by simp [unsortedPair]) (by decide)).1 rfl]
    rfl
  · -- position 5 lies in the entry from "y", which points elsewhere
    obtain ⟨x, hlook, hx⟩ := merged_destToSrc? h hok (p := 5) (by decide)
    rw [hlook, (hx ⟨"y", ⟨0, 2⟩, ⟨4, 6⟩⟩ (by simp [strayEmpty]) (by decide)).1 (by decide)]
    rfl

end SourceMap

end ShaderLink
