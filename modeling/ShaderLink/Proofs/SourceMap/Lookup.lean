import ShaderLink.Proofs.SourceMap.Tiling

/-!
# Finding the entry of a position

Lookups in a source map run the halving search `settle` over the stored entries, with the
test "this entry ends at or before the position" (or "before", for ends of ranges). The search
is only meaningful when the entries passing the test form a prefix; on a tiling they do, since
a tiling is sorted.

`settle_spec` states what the search returns for a prefix-closed test: the length of the
prefix. The invariant of its recursion is the one of any lower-bound search, "everything below
`base` passes, everything from `base + size` on fails". From it:

* `entryContaining?_eq_some_iff`: on a tiling, the entry found for a position is exactly the
  one covering it;
* `entryEndingAtOrAfter?_of_covers`: for a position `p > 0` it is the entry covering `p - 1`;
* `destToSrc?_of_covers`, `mapStart_of_covers`, `mapEnd_of_covers`: what the three lookups
  of the library return on a tiled map.

None of these needs the tiling to start at `0` or the spans to run forwards: sortedness is
all the search uses.
-/

namespace ShaderLink

section Settle

variable {α : Type} (xs : Array α) (p : α → Bool)

/-- The test of the halving search at index `i`; indices past the end fail it. -/
def passesAt (i : Nat) : Bool := (xs[i]?.map p).getD false

/-- The passing indices form a prefix. -/
def PrefixClosed : Prop := ∀ i j, i ≤ j → passesAt xs p j = true → passesAt xs p i = true

variable {xs p}

theorem passesAt_of_size_le {i : Nat} (h : xs.size ≤ i) : passesAt xs p i = false := by
  simp [passesAt, Array.getElem?_eq_none h]

theorem passesAt_eq {i : Nat} (h : i < xs.size) : passesAt xs p i = p xs[i] := by
  simp [passesAt, Array.getElem?_eq_getElem h]

/-- The recursion of the search keeps the lower-bound invariant: indices below `base` pass,
indices from `base + size` on fail. It ends at a `base` past which at most one index passes. -/
theorem settleFrom_spec (hp : PrefixClosed xs p) : ∀ size base,
    (∀ i, i < base → passesAt xs p i = true) →
    (∀ j, base + size ≤ j → passesAt xs p j = false) →
    (∀ i, i < settleFrom xs p base size → passesAt xs p i = true) ∧
      (∀ j, settleFrom xs p base size + 1 ≤ j → passesAt xs p j = false) := by
  intro size
  induction size using Nat.strongRecOn with
  | ind size ih =>
    intro base hlow hhigh
    rw [settleFrom]
    split
    · next hsize =>
      have hmid : (xs[base + size / 2]?.map p).getD false = passesAt xs p (base + size / 2) := rfl
      dsimp only
      rw [hmid]
      apply ih (size - size / 2) (by omega)
      · -- moving `base` to a passing middle keeps everything below it passing
        split
        · next hpass =>
          intro i hi
          exact hp i _ (Nat.le_of_lt hi) hpass
        · exact hlow
      · -- a failing middle makes everything from it on fail, so the upper half can go
        split
        · intro j hj
          exact hhigh j (by omega)
        · next hfail =>
          intro j hj
          cases hj' : passesAt xs p j
          · rfl
          · exact absurd (hp _ j (by omega) hj') hfail
    · exact ⟨hlow, fun j hj => hhigh j (by omega)⟩

/-- On a prefix-closed test the halving search returns the length of the passing prefix. -/
theorem settle_spec (hp : PrefixClosed xs p) :
    (∀ i, i < settle xs p → passesAt xs p i = true) ∧
      (∀ j, settle xs p ≤ j → passesAt xs p j = false) := by
  unfold settle
  split
  · next h0 =>
    exact ⟨fun i hi => absurd hi (Nat.not_lt_zero _),
      fun j _ => passesAt_of_size_le (by omega)⟩
  · obtain ⟨hlow, hhigh⟩ := settleFrom_spec hp xs.size 0 (fun i hi => absurd hi (Nat.not_lt_zero _))
      (fun j hj => passesAt_of_size_le (by omega))
    dsimp only
    have hbase : (xs[settleFrom xs p 0 xs.size]?.map p).getD false =
        passesAt xs p (settleFrom xs p 0 xs.size) := rfl
    rw [hbase]
    cases hb : passesAt xs p (settleFrom xs p 0 xs.size)
    · refine ⟨fun i hi => hlow i (by simpa using hi), fun j hj => ?_⟩
      rcases Nat.lt_or_ge (settleFrom xs p 0 xs.size) j with hlt | hle
      · exact hhigh j hlt
      · rw [show j = settleFrom xs p 0 xs.size by simp at hj; omega]
        exact hb
    · refine ⟨fun i hi => ?_, fun j hj => hhigh j (by simpa using hj)⟩
      rcases Nat.lt_or_ge i (settleFrom xs p 0 xs.size) with hlt | hle
      · exact hlow i hlt
      · rw [show i = settleFrom xs p 0 xs.size by simp at hi; omega]
        exact hb

/-- The search settles exactly at an index that fails while all before it pass. -/
theorem settle_eq_of_fails (hp : PrefixClosed xs p) {k : Nat}
    (hlow : ∀ i, i < k → passesAt xs p i = true) (hk : passesAt xs p k = false) :
    settle xs p = k := by
  obtain ⟨hs₁, hs₂⟩ := settle_spec hp
  rcases Nat.lt_trichotomy (settle xs p) k with h | h | h
  · exact absurd (hlow _ h) (by simp [hs₂ _ (Nat.le_refl _)])
  · exact h
  · exact absurd (hs₁ k h) (by simp [hk])

end Settle

namespace SourceMap

variable {m : SourceMap} {a b : Nat}

/-- On a tiling, "ends at or before `pos`" holds of a prefix of the entries; so does "ends
before `pos`". -/
theorem prefixClosed_stop_le (h : Tiles m.entries.toList a b) (pos : Nat) :
    PrefixClosed m.entries fun e => decide (e.destSpan.stop ≤ pos) := by
  intro i j hij hj
  have hjs : j < m.entries.size := by
    rcases Nat.lt_or_ge j m.entries.size with hlt | hge
    · exact hlt
    · simp [passesAt_of_size_le hge] at hj
  rw [passesAt_eq hjs] at hj
  rw [passesAt_eq (by omega)]
  rcases Nat.eq_or_lt_of_le hij with rfl | hlt
  · exact hj
  · have hpw := List.pairwise_iff_getElem.1 h.pairwise i j (by simpa using (by omega : i < m.entries.size))
      (by simpa using hjs) hlt
    have hb := h.bounds_of_mem _ (List.getElem_mem (by simpa using hjs))
    simp only [Array.getElem_toList, decide_eq_true_eq] at hpw hb hj ⊢
    omega

theorem prefixClosed_stop_lt (h : Tiles m.entries.toList a b) (pos : Nat) :
    PrefixClosed m.entries fun e => decide (e.destSpan.stop < pos) := by
  intro i j hij hj
  have hjs : j < m.entries.size := by
    rcases Nat.lt_or_ge j m.entries.size with hlt | hge
    · exact hlt
    · simp [passesAt_of_size_le hge] at hj
  rw [passesAt_eq hjs] at hj
  rw [passesAt_eq (by omega)]
  rcases Nat.eq_or_lt_of_le hij with rfl | hlt
  · exact hj
  · have hpw := List.pairwise_iff_getElem.1 h.pairwise i j (by simpa using (by omega : i < m.entries.size))
      (by simpa using hjs) hlt
    have hb := h.bounds_of_mem _ (List.getElem_mem (by simpa using hjs))
    simp only [Array.getElem_toList, decide_eq_true_eq] at hpw hb hj ⊢
    omega

/-- An entry of a tiling sits at an index below which every entry ends by its start. -/
theorem exists_index_of_mem (h : Tiles m.entries.toList a b) {e : MapEntry}
    (he : e ∈ m.entries) : ∃ k, ∃ hk : k < m.entries.size, m.entries[k] = e ∧
      ∀ i (hi : i < k), m.entries[i].destSpan.stop ≤ e.destSpan.start := by
  obtain ⟨k, hk, rfl⟩ := Array.getElem_of_mem he
  refine ⟨k, hk, rfl, fun i hi => ?_⟩
  have := List.pairwise_iff_getElem.1 h.pairwise i k (by simp; omega) (by simpa using hk) hi
  simpa using this

/-- On a tiling, the entry found for a position is exactly the entry covering it. -/
theorem entryContaining?_eq_some_iff (h : Tiles m.entries.toList a b) {pos : Nat}
    {e : MapEntry} : m.entryContaining? pos = some e ↔ e ∈ m.entries ∧ e.Covers pos := by
  have hpc := prefixClosed_stop_le h pos
  unfold entryContaining?
  constructor
  · intro hfound
    obtain ⟨hget, hstart⟩ := Option.filter_eq_some_iff.1 hfound
    obtain ⟨hlt, rfl⟩ := Array.getElem?_eq_some_iff.1 hget
    have hfail := (settle_spec hpc).2 _ (Nat.le_refl _)
    rw [passesAt_eq hlt] at hfail
    simp only [decide_eq_false_iff_not, Nat.not_le, decide_eq_true_eq] at hfail hstart
    exact ⟨Array.getElem_mem hlt, hstart, hfail⟩
  · rintro ⟨he, hcov⟩
    obtain ⟨k, hk, rfl, hbefore⟩ := exists_index_of_mem h he
    have hsettle : settle m.entries (fun e => decide (e.destSpan.stop ≤ pos)) = k := by
      apply settle_eq_of_fails hpc
      · intro i hi
        rw [passesAt_eq (by omega)]
        have := hbefore i hi
        simp only [decide_eq_true_eq]
        exact Nat.le_trans this hcov.1
      · rw [passesAt_eq hk]
        simpa using hcov.2
    dsimp only
    rw [hsettle, Array.getElem?_eq_getElem hk]
    simpa using hcov.1

/-- On a tiling, an end position `pos > 0` finds the entry covering `pos - 1`. -/
theorem entryEndingAtOrAfter?_of_covers (h : Tiles m.entries.toList a b) {pos : Nat}
    (hpos : 0 < pos) {e : MapEntry} (he : e ∈ m.entries) (hcov : e.Covers (pos - 1)) :
    m.entryEndingAtOrAfter? pos = some e := by
  have hpc := prefixClosed_stop_lt h pos
  obtain ⟨k, hk, rfl, hbefore⟩ := exists_index_of_mem h he
  have hsettle : settle m.entries (fun e => decide (e.destSpan.stop < pos)) = k := by
    apply settle_eq_of_fails hpc
    · intro i hi
      rw [passesAt_eq (by omega)]
      have := hbefore i hi
      have := hcov.1
      simp only [decide_eq_true_eq]
      omega
    · rw [passesAt_eq hk]
      have := hcov.2
      simp only [decide_eq_false_iff_not, Nat.not_lt]
      omega
  unfold entryEndingAtOrAfter?
  dsimp only
  rw [hsettle, Array.getElem?_eq_getElem hk]
  have := hcov.1
  simp only [Option.filter_some, Bool.or_eq_true, decide_eq_true_eq, beq_iff_eq]
  rw [if_pos (Or.inl (by omega))]

/-- The end position `0` finds the first entry. -/
theorem entryEndingAtOrAfter?_zero (m : SourceMap) : m.entryEndingAtOrAfter? 0 = m.entries[0]? := by
  have hnone : ∀ j, passesAt m.entries (fun e => decide (e.destSpan.stop < 0)) j = false := by
    intro j
    simp only [passesAt, Nat.not_lt_zero, decide_false]
    cases m.entries[j]? <;> rfl
  have hsettle : settle m.entries (fun e => decide (e.destSpan.stop < 0)) = 0 :=
    settle_eq_of_fails (fun i j _ hj => absurd (hnone j ▸ hj) Bool.false_ne_true)
      (fun i hi => absurd hi (Nat.not_lt_zero _)) (hnone 0)
  unfold entryEndingAtOrAfter?
  dsimp only
  rw [hsettle]
  cases m.entries[0]? <;> simp [Option.filter]

/-- On a tiling, a covered position goes where its entry sends it. -/
theorem destToSrc?_of_covers (h : Tiles m.entries.toList a b) {pos : Nat} {e : MapEntry}
    (he : e ∈ m.entries) (hcov : e.Covers pos) : m.destToSrc? pos = some (e.image pos) := by
  unfold destToSrc?
  rw [(entryContaining?_eq_some_iff h).2 ⟨he, hcov⟩]
  rfl

/-- On a tiling, the start of a range inside an entry maps as the entry sends it. -/
theorem mapStart_of_covers (h : Tiles m.entries.toList a b) {pos : Nat} {e : MapEntry}
    (he : e ∈ m.entries) (hcov : e.Covers pos) : m.mapStart pos = .ok (e.image pos) := by
  unfold mapStart
  rw [(entryContaining?_eq_some_iff h).2 ⟨he, hcov⟩]
  rfl

/-- On a tiling, the end `pos > 0` of a range maps through the entry covering `pos - 1`: byte
for byte in a copy, to the end of its source span in a replacement. -/
theorem mapEnd_of_covers (h : Tiles m.entries.toList a b) {pos : Nat} (hpos : 0 < pos)
    {e : MapEntry} (he : e ∈ m.entries) (hcov : e.Covers (pos - 1)) :
    m.mapEnd pos = .ok ⟨e.src, e.offsetOf pos e.srcSpan.stop⟩ := by
  have hne : m.entries.isEmpty = false := by
    cases hemp : m.entries.isEmpty
    · rfl
    · simp only [Array.isEmpty_iff] at hemp
      simp [hemp] at he
  unfold mapEnd
  rw [hne, Bool.and_false, if_neg (by simp), entryEndingAtOrAfter?_of_covers h hpos he hcov]
  have := hcov.1
  simp only
  rw [if_neg (by simp only [Bool.and_eq_true, decide_eq_true_eq, not_and]; intro; omega)]
  rfl

end SourceMap

end ShaderLink
