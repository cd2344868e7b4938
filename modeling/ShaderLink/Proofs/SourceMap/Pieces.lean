import ShaderLink.Proofs.SourceMap.Merge

/-!
# The pieces of a copy

When `merge` meets a copy of the inner text, it cuts it along the inner entries it runs
through (`copyPieces`). This module says what each cut is, not only what it answers: the loop
never faults on a tiling, the pieces tile the copy's destination in order, and each is the copy
over one range of one inner entry (`PieceOf`), so that its source span is the byte-for-byte
image of that range when the entry is a copy, and the entry's whole source span when it is a
replacement (`copyPieces_split`).

The loop advances from `pos` to the end of the inner entry containing it, or to the end of the
copy. On a tiling that entry covers `pos`, so the piece is never empty and the loop moves on.
-/

namespace ShaderLink

namespace SourceMap

/-- `x` is the piece of the copy `e` over the range `[q, r)` of the inner destination, a range
inside the copy's source span and inside the inner entry `f`. -/
def PieceOf (e f x : MapEntry) : Prop :=
  ∃ q r, e.srcSpan.start ≤ q ∧ f.destSpan.start ≤ q ∧ q < r ∧ r ≤ f.destSpan.stop ∧
    r ≤ e.srcSpan.stop ∧ x = copyPiece e f q r

/-- The inner position that a copy sends a destination position to. -/
theorem image_offset_of_isCopy {e : MapEntry} (hcopy : e.isCopy = true) (p : Nat) :
    (e.image p).offset = e.srcSpan.start + (p - e.destSpan.start) := by
  rw [MapEntry.image_offset, if_pos hcopy]

/-- What a piece is: its destination is the copy's image of `[q, r)`, it comes from `f`'s
source, and its source span is `f`'s image of `[q, r)` when `f` is a copy, `f`'s whole source
span when `f` is a replacement. -/
theorem PieceOf.spec {e f x : MapEntry} (hcopy : e.isCopy = true) (h : PieceOf e f x) :
    f.destSpan.start ≤ (e.image x.destSpan.start).offset ∧
      (e.image x.destSpan.start).offset < (e.image x.destSpan.stop).offset ∧
      (e.image x.destSpan.stop).offset ≤ f.destSpan.stop ∧ x.src = f.src ∧
      x.srcSpan = if f.isCopy then ⟨(f.image (e.image x.destSpan.start).offset).offset,
        (f.image (e.image x.destSpan.stop).offset).offset⟩ else f.srcSpan := by
  obtain ⟨q, r, hq, hfq, hqr, hrf, hr, rfl⟩ := h
  -- through the copy, the piece's two ends come back to `q` and `r`
  have hstart : (e.image (copyPiece e f q r).destSpan.start).offset = q := by
    simp only [image_offset_of_isCopy hcopy, copyPiece_destSpan]
    omega
  have hstop : (e.image (copyPiece e f q r).destSpan.stop).offset = r := by
    simp only [image_offset_of_isCopy hcopy, copyPiece_destSpan]
    omega
  rw [hstart, hstop]
  refine ⟨hfq, hqr, hrf, rfl, ?_⟩
  cases hf : f.isCopy
  · simp [copyPiece, hf]
  · simp only [copyPiece, hf, if_true, image_offset_of_isCopy hf, Span.mk.injEq, true_and]
    omega

variable {m : SourceMap}

/-- **Cutting a copy along a tiling.** From any `pos` in the copy's source span on, cutting
never faults; the pieces tile the rest of the copy's destination, and each is the piece of the
copy over a range of one inner entry. -/
theorem copyPieces_along {L : Nat} (hm : Tiles m.entries.toList 0 L) {e : MapEntry}
    (hstop : e.srcSpan.stop ≤ L) (pos : Nat) (hlo : e.srcSpan.start ≤ pos)
    (hhi : pos ≤ e.srcSpan.stop) :
    ∃ ps, m.copyPieces e pos = .ok ps ∧
      Tiles ps (e.destSpan.start + (pos - e.srcSpan.start))
        (e.destSpan.start + (e.srcSpan.stop - e.srcSpan.start)) ∧
      ∀ x ∈ ps, ∃ f ∈ m.entries, PieceOf e f x := by
  fun_induction m.copyPieces e pos with
  | case1 pos hlt hnone =>
    -- a tiling has an entry for every position it covers
    obtain ⟨J, hJ, hcov⟩ := hm.exists_covers (Nat.zero_le pos) (by omega)
    rw [(entryContaining?_eq_some_iff hm).2 ⟨by simpa using hJ, hcov⟩] at hnone
    cases hnone
  | case2 pos hlt J hJ pieceEnd hback =>
    have hcov := ((entryContaining?_eq_some_iff hm).1 hJ).2
    exact absurd hback (by simp only [pieceEnd, MapEntry.Covers] at hcov ⊢; omega)
  | case3 J pieceEnd hlt hJ _ =>
    -- `J` contains the position, so the piece ends after it
    have hcov := ((entryContaining?_eq_some_iff hm).1 hJ).2
    simp only [pieceEnd, MapEntry.Covers] at hcov hlt
    omega
  | case4 pos hlt J hJ pieceEnd hback hstall width destStart srcSpan piece ih =>
    obtain ⟨hJmem, hcov⟩ := (entryContaining?_eq_some_iff hm).1 hJ
    obtain ⟨ps, hps, htiles, hpieces⟩ := ih (by omega) (Nat.min_le_right _ _)
    refine ⟨piece :: ps, by simp [hps], ?_, fun x hx => ?_⟩
    · refine ⟨rfl, by simp only [piece, destStart, width]; omega, ?_⟩
      rw [show piece.destSpan.stop = e.destSpan.start + (pieceEnd - e.srcSpan.start) by
        simp only [piece, destStart, width]; omega]
      exact htiles
    · rcases List.mem_cons.1 hx with rfl | hx
      · -- the first piece runs from `pos` to the end of `J` or of the copy
        refine ⟨J, hJmem, pos, pieceEnd, hlo, hcov.1, by omega, Nat.min_le_left _ _,
          Nat.min_le_right _ _, ?_⟩
        simp only [piece, srcSpan, destStart, width, copyPiece]
        split <;> rfl
      · exact hpieces x hx
  | case5 pos hge =>
    refine ⟨[], rfl, ?_, fun x hx => absurd hx List.not_mem_nil⟩
    simp only [tiles_nil]
    omega

/-- **The pieces of a copy.** Whenever the compacted entries of `inner` tile its destination,
cutting a copy `e` of a non-empty part of that destination ends without a fault, and the pieces
tile the copy's destination in order. Each lies inside one compacted inner entry `f`, comes
from `f`'s source, and has as source span the byte-for-byte image of what it copies when `f`
is a copy, or `f`'s whole source span when `f` is a replacement. -/
theorem copyPieces_split (inner : SourceMap)
    (hin : Tiles inner.compact.entries.toList 0 inner.destSize) {e : MapEntry}
    (hcopy : e.isCopy = true) (hne : e.srcSpan.start < e.srcSpan.stop)
    (hstop : e.srcSpan.stop ≤ inner.destSize) :
    ∃ ps, inner.compact.copyPieces e e.srcSpan.start = .ok ps ∧
      Tiles ps e.destSpan.start e.destSpan.stop ∧
      ∀ x ∈ ps, ∃ f ∈ inner.compact.entries,
        f.destSpan.start ≤ (e.image x.destSpan.start).offset ∧
        (e.image x.destSpan.start).offset < (e.image x.destSpan.stop).offset ∧
        (e.image x.destSpan.stop).offset ≤ f.destSpan.stop ∧ x.src = f.src ∧
        x.srcSpan = if f.isCopy then ⟨(f.image (e.image x.destSpan.start).offset).offset,
          (f.image (e.image x.destSpan.stop).offset).offset⟩ else f.srcSpan := by
  obtain ⟨ps, hps, htiles, hpieces⟩ :=
    copyPieces_along hin hstop e.srcSpan.start (Nat.le_refl _) (Nat.le_of_lt hne)
  -- a copy's destination is as long as its source span
  have hlen := (MapEntry.isCopy_iff e).1 hcopy
  refine ⟨ps, hps, ?_, fun x hx => ?_⟩
  · rwa [Nat.sub_self, Nat.add_zero, show e.destSpan.start + (e.srcSpan.stop - e.srcSpan.start) =
      e.destSpan.stop by omega] at htiles
  · obtain ⟨f, hf, hpiece⟩ := hpieces x hx
    exact ⟨f, hf, hpiece.spec hcopy⟩

/-- An inner text `abcdef` whose first half is copied from `a` and whose second half replaces
one byte of `b`. -/
def copyThenReplacement : SourceMap :=
  ⟨"in", "abcdef", #[⟨"a", ⟨0, 3⟩, ⟨0, 3⟩⟩, ⟨"b", ⟨0, 1⟩, ⟨3, 6⟩⟩]⟩

/-- A copy of `bcde` runs across both inner entries: it is cut into a copy of `bc` from `a`
and the whole replacement of `b`, for `de`. -/
theorem copyAcrossReplacement_split :
    Tiles copyThenReplacement.compact.entries.toList 0 copyThenReplacement.destSize ∧
      (⟨"in", ⟨1, 5⟩, ⟨10, 14⟩⟩ : MapEntry).isCopy = true ∧ 1 < 5 ∧
      5 ≤ copyThenReplacement.destSize ∧ ∃ ps, copyThenReplacement.compact.copyPieces ⟨"in", ⟨1, 5⟩, ⟨10, 14⟩⟩ 1 = .ok ps ∧
        Tiles ps 10 14 ∧
        ∀ x ∈ ps, ∃ f ∈ copyThenReplacement.compact.entries,
          f.destSpan.start ≤ ((⟨"in", ⟨1, 5⟩, ⟨10, 14⟩⟩ : MapEntry).image x.destSpan.start).offset ∧
          ((⟨"in", ⟨1, 5⟩, ⟨10, 14⟩⟩ : MapEntry).image x.destSpan.start).offset <
            ((⟨"in", ⟨1, 5⟩, ⟨10, 14⟩⟩ : MapEntry).image x.destSpan.stop).offset ∧
          ((⟨"in", ⟨1, 5⟩, ⟨10, 14⟩⟩ : MapEntry).image x.destSpan.stop).offset ≤ f.destSpan.stop ∧
          x.src = f.src ∧
          x.srcSpan = if f.isCopy then
            ⟨(f.image ((⟨"in", ⟨1, 5⟩, ⟨10, 14⟩⟩ : MapEntry).image x.destSpan.start).offset).offset,
              (f.image ((⟨"in", ⟨1, 5⟩, ⟨10, 14⟩⟩ : MapEntry).image x.destSpan.stop).offset).offset⟩
          else f.srcSpan :=
  ⟨by decide, rfl, by decide, by decide, copyPieces_split copyThenReplacement (by decide) rfl (by decide) (by decide)⟩

end SourceMap

end ShaderLink
