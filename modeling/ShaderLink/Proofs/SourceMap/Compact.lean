import ShaderLink.Proofs.SourceMap.Lookup
import ShaderLink.Proofs.Sorting

/-!
# Compaction

`compact` drops the entries with an empty destination, sorts the rest stably by destination
start and joins neighbouring copies of contiguous source text. This module proves what it
keeps and what it guarantees.

* **What it keeps.** When the non-empty entries tile `[a, b)` in some order, the compacted
  entries tile `[a, b)` in stored order (`compactEntries_tiles`), and each of them sends every
  position it covers where the entry it came from did (`compactEntries_agrees`). A join is
  only made between two copies that continue each other in both texts, so the joined copy
  sends each of its positions where one of the two did (`joined_image_left`,
  `joined_image_right`).
* **What it guarantees.** For entries whose destinations run forwards, the result has no
  empty entry, is ordered by destination start and has no two neighbours that join, so
  compacting again changes nothing (`compactEntries_compactEntries`).

The sort is a stable insertion sort; on entries that tile, the order by start is the tiling
order, so the sort reproduces the tiling (`sortBy_eq_of_tiles`). The join loop is a left fold into a
reversed accumulator; its invariant is stated on the accumulator read forwards.
-/

namespace ShaderLink

namespace MapEntry

/-- The entry that `compact` makes of two neighbours it joins. -/
def joined (prev e : MapEntry) : MapEntry :=
  { prev with
    srcSpan := ⟨prev.srcSpan.start, e.srcSpan.stop⟩
    destSpan := ⟨prev.destSpan.start, e.destSpan.stop⟩ }

variable {prev e : MapEntry}

theorem joinsWith_iff : prev.joinsWith e = true ↔ prev.src = e.src ∧ prev.isCopy = true ∧
    e.isCopy = true ∧ prev.srcSpan.stop = e.srcSpan.start ∧
      prev.destSpan.stop = e.destSpan.start := by
  simp [joinsWith, and_assoc]

/-- Two joining copies with non-empty destinations make a copy. -/
theorem isCopy_joined (hj : prev.joinsWith e = true)
    (hp : prev.destSpan.start < prev.destSpan.stop) (he : e.destSpan.start < e.destSpan.stop) :
    (prev.joined e).isCopy = true := by
  obtain ⟨-, hpc, hec, hsrc, hdest⟩ := joinsWith_iff.1 hj
  rw [isCopy_iff] at hpc hec ⊢
  simp only [joined]
  omega

/-- On the positions of the first part, the joined copy sends them where the first did. -/
theorem joined_image_left (hj : prev.joinsWith e = true)
    (hp : prev.destSpan.start < prev.destSpan.stop) (he : e.destSpan.start < e.destSpan.stop)
    {p : Nat} : (prev.joined e).image p = prev.image p := by
  have hc := isCopy_joined hj hp he
  obtain ⟨-, hpc, -, -, -⟩ := joinsWith_iff.1 hj
  simp only [image, offsetOf, hc, hpc, if_true]
  rfl

/-- On the positions of the second part, the joined copy sends them where the second did. -/
theorem joined_image_right (hj : prev.joinsWith e = true)
    (hp : prev.destSpan.start < prev.destSpan.stop) (he : e.destSpan.start < e.destSpan.stop)
    {p : Nat} (hcov : e.Covers p) : (prev.joined e).image p = e.image p := by
  have hc := isCopy_joined hj hp he
  obtain ⟨hs, hpc, hec, hsrc, hdest⟩ := joinsWith_iff.1 hj
  have hpl := (isCopy_iff prev).1 hpc
  have hel := (isCopy_iff e).1 hec
  have := hcov.1
  simp only [image, offsetOf, hc, hec, if_true]
  simp only [joined, hs, SourcePosition.mk.injEq, true_and]
  omega

/-- A join changes neither the source, nor the starts, nor whether the first part is a copy, so
an earlier neighbour joins the joined copy exactly when it joined the first part. -/
theorem joinsWith_joined (x : MapEntry) (hj : prev.joinsWith e = true)
    (hp : prev.destSpan.start < prev.destSpan.stop) (he : e.destSpan.start < e.destSpan.stop) :
    x.joinsWith (prev.joined e) = x.joinsWith prev := by
  have hc := isCopy_joined hj hp he
  obtain ⟨-, hpc, -, -, -⟩ := joinsWith_iff.1 hj
  simp only [joinsWith, hc, hpc]
  rfl

end MapEntry

namespace SourceMap

theorem joinInto_nil (e : MapEntry) : joinInto [] e = [e] := rfl

theorem joinInto_cons (prev e : MapEntry) (rest : List MapEntry) :
    joinInto (prev :: rest) e =
      if prev.joinsWith e then prev.joined e :: rest else e :: prev :: rest := rfl

/-! ### Joining keeps a tiling and where its positions go -/

/-- One round of the join loop: the accumulator, read forwards, still tiles up to the end of
the entry just added, and still agrees with `R`. -/
theorem joinInto_tiles {R : Nat → SourcePosition → Prop} {acc : List MapEntry} {e : MapEntry}
    {a c : Nat} (hacc : Tiles acc.reverse a c) (hR : Agrees acc R)
    (he : Tiles [e] c e.destSpan.stop) (heR : Agrees [e] R) :
    Tiles (joinInto acc e).reverse a e.destSpan.stop ∧ Agrees (joinInto acc e) R := by
  cases acc with
  | nil =>
    simp only [List.reverse_nil, tiles_nil] at hacc
    subst hacc
    exact ⟨by simpa [joinInto_nil] using he, heR⟩
  | cons prev rest =>
    obtain ⟨mid, hrest, hprev⟩ := tiles_append.1 (by simpa using hacc)
    rw [tiles_singleton] at hprev he
    obtain ⟨hps, hpl, hpe⟩ := hprev
    obtain ⟨hes, hel, -⟩ := he
    rw [joinInto_cons]
    split
    · next hj =>
      have hpne : prev.destSpan.start < prev.destSpan.stop := by omega
      have hene : e.destSpan.start < e.destSpan.stop := by omega
      refine ⟨?_, ?_⟩
      · rw [List.reverse_cons]
        exact tiles_append.2 ⟨mid, hrest, by simp [MapEntry.joined]; omega⟩
      · intro x hx p hp
        rcases List.mem_cons.1 hx with rfl | hx
        · -- the joined copy answers each position as the part that covered it did
          by_cases hleft : p < prev.destSpan.stop
          · rw [MapEntry.joined_image_left hj hpne hene]
            exact hR prev List.mem_cons_self p ⟨by simpa [MapEntry.joined] using hp.1, hleft⟩
          · have hcov : e.Covers p := ⟨by omega, by simpa [MapEntry.joined] using hp.2⟩
            rw [MapEntry.joined_image_right hj hpne hene hcov]
            exact heR e List.mem_cons_self p hcov
        · exact hR x (List.mem_cons_of_mem _ hx) p hp
    · refine ⟨?_, ?_⟩
      · rw [List.reverse_cons]
        exact tiles_append.2 ⟨c, hacc, by simp; omega⟩
      · intro x hx p hp
        rcases List.mem_cons.1 hx with rfl | hx
        · exact heR x List.mem_cons_self p hp
        · exact hR x hx p hp

/-- The join loop keeps a tiling and agreement with `R`. -/
theorem foldl_joinInto_tiles {R : Nat → SourcePosition → Prop} :
    ∀ (l acc : List MapEntry) {a c b : Nat}, Tiles acc.reverse a c → Agrees acc R →
      Tiles l c b → Agrees l R →
      Tiles (l.foldl joinInto acc).reverse a b ∧ Agrees (l.foldl joinInto acc) R
  | [], acc, a, c, b, hacc, hR, hl, _ => by
    simp only [tiles_nil] at hl
    subst hl
    exact ⟨hacc, hR⟩
  | e :: l, acc, a, c, b, hacc, hR, hl, hlR => by
    obtain ⟨hes, hel, hl⟩ := hl
    have hstep := joinInto_tiles hacc hR (tiles_singleton.2 ⟨hes, by omega, rfl⟩)
      (fun x hx => hlR x (by simp_all))
    exact foldl_joinInto_tiles l _ hstep.1 hstep.2 hl
      (fun x hx => hlR x (List.mem_cons_of_mem _ hx))

/-! ### Sorting a tiling reproduces it -/

/-- Entries that tile, in any order, are sorted into their tiling order. -/
theorem sortBy_eq_of_tiles {kept l : List MapEntry} {a b : Nat} (hperm : kept.Perm l)
    (hl : Tiles l a b) :
    sortBy (fun x y => decide (x.destSpan.start ≤ y.destSpan.start)) kept = l := by
  have hmem : ∀ x, x ∈ sortBy (fun x y => decide (x.destSpan.start ≤ y.destSpan.start)) kept
      → x ∈ l := fun x hx => hperm.subset ((mem_sortBy _).1 hx)
  apply @List.Perm.eq_of_pairwise _ fun x y => decide (x.destSpan.start ≤ y.destSpan.start)
  · -- two entries of a tiling with one start are one entry
    intro x y hx hy hxy hyx
    have hx' := hl.bounds_of_mem x (hmem x hx)
    have hy' := hl.bounds_of_mem y hy
    simp only [decide_eq_true_eq] at hxy hyx
    exact hl.eq_of_covers (hmem x hx) hy (p := x.destSpan.start) ⟨Nat.le_refl _, hx'.2.1⟩
      ⟨by omega, by omega⟩
  · exact pairwise_sortBy _ (fun x y z hxy hyz => by simp at *; omega)
      (fun x y => by simp only [Bool.or_eq_true, decide_eq_true_eq]; omega) kept
  · refine hl.pairwise.imp_of_mem fun {x y} hx _ hxy => ?_
    have := hl.bounds_of_mem x hx
    simp only [decide_eq_true_eq]
    omega
  · exact (sortBy_perm _ kept).trans hperm

/-- When the non-empty entries tile `[a, b)` in some order, compaction is the join loop run
over that tiling. -/
theorem compactEntries_eq {es l : List MapEntry} {a b : Nat}
    (hperm : (es.filter fun e => !e.destSpan.isEmpty).Perm l) (hl : Tiles l a b) :
    compactEntries es = (l.foldl joinInto []).reverse := by
  unfold compactEntries
  dsimp only
  rw [sortBy_eq_of_tiles hperm hl]

/-- Compaction keeps a tiling of the non-empty entries, now in stored order. -/
theorem compactEntries_tiles {es l : List MapEntry} {a b : Nat}
    (hperm : (es.filter fun e => !e.destSpan.isEmpty).Perm l) (hl : Tiles l a b) :
    Tiles (compactEntries es) a b := by
  rw [compactEntries_eq hperm hl]
  exact (@foldl_joinInto_tiles (fun _ _ => True) l [] a a b (by simp) (fun _ _ _ _ => trivial) hl
    (fun _ _ _ _ => trivial)).1

/-- Compaction keeps agreement with `R`: a compacted entry sends each position it covers where
an entry of the map did. -/
theorem compactEntries_agrees {R : Nat → SourcePosition → Prop} {es l : List MapEntry}
    {a b : Nat} (hperm : (es.filter fun e => !e.destSpan.isEmpty).Perm l) (hl : Tiles l a b)
    (hR : Agrees es R) : Agrees (compactEntries es) R := by
  rw [compactEntries_eq hperm hl]
  intro x hx
  exact (foldl_joinInto_tiles l [] (show Tiles ([] : List MapEntry).reverse a a by simp)
    (fun _ h => absurd h List.not_mem_nil) hl
    (fun y hy => hR y (List.mem_filter.1 (hperm.symm.subset hy)).1)).2 x (List.mem_reverse.1 hx)

/-! ### Compacting twice changes nothing -/

/-- Read from the newest entry back, as the join loop's accumulator is: no entry joins the one
after it. -/
def Unjoinable : List MapEntry → Prop
  | y :: x :: rest => x.joinsWith y = false ∧ Unjoinable (x :: rest)
  | _ => True

theorem Unjoinable.tail : ∀ {x : MapEntry} {t : List MapEntry}, Unjoinable (x :: t) → Unjoinable t
  | _, [], _ => trivial
  | _, _ :: _, h => h.2

theorem Unjoinable.of_append : ∀ {xs ys : List MapEntry}, Unjoinable (xs ++ ys) → Unjoinable ys
  | [], _, h => h
  | _ :: xs, ys, h => @Unjoinable.of_append xs ys h.tail

/-- On entries of which no two neighbours join, the join loop only reverses. -/
theorem foldl_joinInto_of_unjoinable : ∀ (l acc : List MapEntry),
    Unjoinable (l.reverse ++ acc) → l.foldl joinInto acc = l.reverse ++ acc
  | [], _, _ => rfl
  | e :: l, acc, h => by
    have h' : Unjoinable (l.reverse ++ e :: acc) := by simpa using h
    have hstep : joinInto acc e = e :: acc := by
      cases acc with
      | nil => rfl
      | cons prev tl =>
        rw [joinInto_cons, if_neg (by simp [(Unjoinable.of_append h').1])]
    rw [List.foldl_cons, hstep, foldl_joinInto_of_unjoinable l (e :: acc) h']
    simp

/-- What the join loop keeps of a sorted list of non-empty entries: its accumulator holds
non-empty entries, newest first and ordered by start, no two of them join, and none starts
after an entry still to come. -/
structure JoinLoopInv (acc rest : List MapEntry) : Prop where
  filled : ∀ x ∈ acc, x.destSpan.start < x.destSpan.stop
  sorted : acc.Pairwise fun y x => x.destSpan.start ≤ y.destSpan.start
  unjoinable : Unjoinable acc
  before : ∀ x ∈ acc, ∀ y ∈ rest, x.destSpan.start ≤ y.destSpan.start

theorem JoinLoopInv.step {acc rest : List MapEntry} {e : MapEntry} (h : JoinLoopInv acc (e :: rest))
    (he : e.destSpan.start < e.destSpan.stop)
    (hrest : ∀ y ∈ rest, e.destSpan.start ≤ y.destSpan.start) :
    JoinLoopInv (joinInto acc e) rest := by
  have hbefore_e : ∀ x ∈ acc, x.destSpan.start ≤ e.destSpan.start :=
    fun x hx => h.before x hx e List.mem_cons_self
  cases acc with
  | nil =>
    exact ⟨by simpa [joinInto_nil] using he, by simp [joinInto_nil], trivial,
      by simpa [joinInto_nil] using hrest⟩
  | cons prev tl =>
    have hprev := h.filled prev List.mem_cons_self
    rw [joinInto_cons]
    split
    · next hj =>
      -- the joined copy keeps the start, source and copy status of `prev`
      obtain ⟨hfl, hsorted, hunj, hbef⟩ := h
      refine ⟨?_, ?_, ?_, ?_⟩
      · intro x hx
        rcases List.mem_cons.1 hx with rfl | hx
        · have := hbefore_e prev List.mem_cons_self
          simp only [MapEntry.joined]
          omega
        · exact hfl x (List.mem_cons_of_mem _ hx)
      · exact List.Pairwise.cons (fun x hx => (List.pairwise_cons.1 hsorted).1 x hx)
          (List.pairwise_cons.1 hsorted).2
      · cases tl with
        | nil => trivial
        | cons x tl' =>
          refine ⟨?_, hunj.2⟩
          rw [MapEntry.joinsWith_joined x hj hprev he]
          exact hunj.1
      · intro x hx y hy
        rcases List.mem_cons.1 hx with rfl | hx
        · exact hbef prev List.mem_cons_self y (List.mem_cons_of_mem _ hy)
        · exact hbef x (List.mem_cons_of_mem _ hx) y (List.mem_cons_of_mem _ hy)
    · next hj =>
      obtain ⟨hfl, hsorted, hunj, hbef⟩ := h
      refine ⟨?_, ?_, ⟨by simpa using hj, hunj⟩, ?_⟩
      · intro x hx
        rcases List.mem_cons.1 hx with rfl | hx
        · exact he
        · exact hfl x hx
      · exact List.Pairwise.cons hbefore_e hsorted
      · intro x hx y hy
        rcases List.mem_cons.1 hx with rfl | hx
        · exact hrest y hy
        · exact hbef x hx y (List.mem_cons_of_mem _ hy)

theorem JoinLoopInv.foldl : ∀ (l acc : List MapEntry), JoinLoopInv acc l →
    (∀ e ∈ l, e.destSpan.start < e.destSpan.stop) →
    l.Pairwise (fun x y => x.destSpan.start ≤ y.destSpan.start) →
    JoinLoopInv (l.foldl joinInto acc) []
  | [], _, h, _, _ => h
  | e :: l, acc, h, hfl, hs => by
    rw [List.foldl_cons]
    exact JoinLoopInv.foldl l _ (h.step (hfl e List.mem_cons_self) (List.pairwise_cons.1 hs).1)
      (fun x hx => hfl x (List.mem_cons_of_mem _ hx)) (List.pairwise_cons.1 hs).2

/-- What compaction guarantees of entries whose destinations run forwards: no empty entry,
order by destination start, and no two neighbours that join. -/
theorem compactEntries_spec (es : List MapEntry)
    (hfw : ∀ e ∈ es, e.destSpan.start ≤ e.destSpan.stop) :
    (∀ x ∈ compactEntries es, x.destSpan.start < x.destSpan.stop) ∧
      (compactEntries es).Pairwise (fun x y => x.destSpan.start ≤ y.destSpan.start) ∧
      Unjoinable (compactEntries es).reverse := by
  let sorted := sortBy (fun x y => decide (x.destSpan.start ≤ y.destSpan.start))
    (es.filter fun e => !e.destSpan.isEmpty)
  have hfl : ∀ e ∈ sorted, e.destSpan.start < e.destSpan.stop := by
    intro e he
    have := List.mem_filter.1 ((mem_sortBy _).1 he)
    exact MapEntry.start_lt_stop_of_filled (hfw e this.1) this.2
  have hs : sorted.Pairwise fun x y => x.destSpan.start ≤ y.destSpan.start := by
    have := pairwise_sortBy (fun x y => decide (x.destSpan.start ≤ y.destSpan.start))
      (fun x y z hxy hyz => by simp only [decide_eq_true_eq] at *; omega)
      (fun x y => by simp only [Bool.or_eq_true, decide_eq_true_eq]; omega)
      (es.filter fun e => !e.destSpan.isEmpty)
    exact this.imp fun h => by simpa using h
  have hinv := JoinLoopInv.foldl sorted [] ⟨by simp, by simp, trivial, by simp⟩ hfl hs
  have hdef : compactEntries es = (sorted.foldl joinInto []).reverse := rfl
  rw [hdef]
  refine ⟨fun x hx => hinv.filled x (List.mem_reverse.1 hx), ?_, by simpa using hinv.unjoinable⟩
  exact List.pairwise_reverse.2 hinv.sorted

/-- Compaction drops empty entries first, so dropping them beforehand changes nothing. -/
theorem compactEntries_filter (es : List MapEntry) :
    compactEntries (es.filter fun e => !e.destSpan.isEmpty) = compactEntries es := by
  simp only [compactEntries, List.filter_filter, Bool.and_self]

/-- Compacting entries whose destinations run forwards a second time changes nothing. -/
theorem compactEntries_compactEntries (es : List MapEntry)
    (hfw : ∀ e ∈ es, e.destSpan.start ≤ e.destSpan.stop) :
    compactEntries (compactEntries es) = compactEntries es := by
  obtain ⟨hfl, hs, hunj⟩ := compactEntries_spec es hfw
  have hkeep : (compactEntries es).filter (fun e => !e.destSpan.isEmpty) = compactEntries es :=
    List.filter_eq_self.2 fun x hx => MapEntry.filled_of_covers (p := x.destSpan.start)
      ⟨Nat.le_refl _, hfl x hx⟩
  rw [show compactEntries (compactEntries es) =
      ((sortBy (fun x y => decide (x.destSpan.start ≤ y.destSpan.start))
        ((compactEntries es).filter fun e => !e.destSpan.isEmpty)).foldl joinInto []).reverse
      from rfl]
  rw [hkeep, sortBy_of_pairwise _ (hs.imp fun h => by simpa using h),
    foldl_joinInto_of_unjoinable _ [] (by simpa using hunj)]
  simp

/-! ### Where compacted entries come from -/

/-- Every entry of `acc` is an entry of `l`, or a copy whose every position lies in a copy of
`l`. -/
def ComesFrom (acc l : List MapEntry) : Prop :=
  ∀ x ∈ acc, x ∈ l ∨ (x.isCopy = true ∧ ∀ q, x.Covers q → ∃ f ∈ l, f.Covers q ∧ f.isCopy = true)

theorem ComesFrom.step {acc l : List MapEntry} {e : MapEntry} (h : ComesFrom acc l)
    (he : e ∈ l) (hacc : ∀ x ∈ acc, x.destSpan.start < x.destSpan.stop)
    (hne : e.destSpan.start < e.destSpan.stop) : ComesFrom (joinInto acc e) l := by
  cases acc with
  | nil =>
    intro x hx
    rw [joinInto_nil, List.mem_singleton] at hx
    exact Or.inl (hx ▸ he)
  | cons prev tl =>
    rw [joinInto_cons]
    split
    · next hj =>
      have hprev := hacc prev List.mem_cons_self
      intro x hx
      rcases List.mem_cons.1 hx with rfl | hx
      · -- a joined copy: its positions lie in `prev` or in `e`, both copies
        refine Or.inr ⟨MapEntry.isCopy_joined hj hprev hne, fun q hq => ?_⟩
        obtain ⟨-, hpc, hec, -, hdest⟩ := MapEntry.joinsWith_iff.1 hj
        by_cases hleft : q < prev.destSpan.stop
        · rcases h prev List.mem_cons_self with hp | ⟨-, hp⟩
          · exact ⟨prev, hp, ⟨by simpa [MapEntry.joined] using hq.1, hleft⟩, hpc⟩
          · exact hp q ⟨by simpa [MapEntry.joined] using hq.1, hleft⟩
        · exact ⟨e, he, ⟨by omega, by simpa [MapEntry.joined] using hq.2⟩, hec⟩
      · exact h x (List.mem_cons_of_mem _ hx)
    · intro x hx
      rcases List.mem_cons.1 hx with rfl | hx
      · exact Or.inl he
      · exact h x hx

theorem ComesFrom.foldl {l : List MapEntry} : ∀ (rest acc : List MapEntry), ComesFrom acc l →
    (∀ e ∈ rest, e ∈ l) → JoinLoopInv acc rest →
    (∀ e ∈ rest, e.destSpan.start < e.destSpan.stop) →
    rest.Pairwise (fun x y => x.destSpan.start ≤ y.destSpan.start) →
    ComesFrom (rest.foldl joinInto acc) l
  | [], _, h, _, _, _, _ => h
  | e :: rest, acc, h, hsub, hinv, hfl, hs => by
    rw [List.foldl_cons]
    exact ComesFrom.foldl rest _
      (h.step (hsub e List.mem_cons_self) hinv.filled (hfl e List.mem_cons_self))
      (fun x hx => hsub x (List.mem_cons_of_mem _ hx))
      (hinv.step (hfl e List.mem_cons_self) (List.pairwise_cons.1 hs).1)
      (fun x hx => hfl x (List.mem_cons_of_mem _ hx)) (List.pairwise_cons.1 hs).2

/-- A compacted entry covering a position is the entry of the tiling covering it, or a copy,
and then so is that entry. -/
theorem compactEntries_origin {es l : List MapEntry} {a b : Nat}
    (hperm : (es.filter fun e => !e.destSpan.isEmpty).Perm l) (hl : Tiles l a b)
    {x f : MapEntry} (hx : x ∈ compactEntries es) (hf : f ∈ l) {q : Nat} (hxq : x.Covers q)
    (hfq : f.Covers q) : x.isCopy = f.isCopy ∧ (x.isCopy = false → x = f) := by
  have hs : l.Pairwise fun x y => x.destSpan.start ≤ y.destSpan.start :=
    hl.pairwise.imp_of_mem fun {x y} hx _ hxy => by
      have := hl.bounds_of_mem x hx
      omega
  have hfl : ∀ e ∈ l, e.destSpan.start < e.destSpan.stop := fun e he => (hl.bounds_of_mem e he).2.1
  rw [compactEntries_eq hperm hl] at hx
  have horig := ComesFrom.foldl l [] (fun _ h => absurd h List.not_mem_nil) (fun e he => he)
    ⟨by simp, by simp, trivial, by simp⟩ hfl hs x (List.mem_reverse.1 hx)
  rcases horig with hxl | ⟨hxc, hcov⟩
  · have := hl.eq_of_covers hxl hf hxq hfq
    subst this
    exact ⟨rfl, fun _ => rfl⟩
  · obtain ⟨g, hg, hgq, hgc⟩ := hcov q hxq
    rw [hxc, ← hl.eq_of_covers hg hf hgq hfq, hgc]
    exact ⟨rfl, fun h => absurd h (by decide)⟩

end SourceMap

end ShaderLink
