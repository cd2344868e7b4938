import ShaderLink.SourceMap.Merge

/-!
# Tilings of a destination text

A source map is meaningful when its entries *tile* its destination: taken in order, the
non-empty ones cut `[0, |dest|)` into consecutive pieces with no gap and no overlap. This
module states that shape once, as `Tiles es a b`, and proves the facts every later argument
about maps rests on:

* a tiling is sorted, and each position of `[a, b)` lies in exactly one of its entries
  (`Tiles.exists_covers`, `Tiles.eq_of_covers`);
* tilings glue end to end (`tiles_append`);
* `checkCoverage` accepts a map exactly when its non-empty entries, in stored order, tile
  the destination (`checkCoverage_eq_none_iff`), for maps whose spans run forwards.

What an entry says about one position is `MapEntry.image`: where `destToSrc?` sends it once
the entry is found. `Agrees es R` records that every entry of `es` answers every position it
covers as the relation `R` allows; it is the invariant that compaction, appending and merging
carry, so that a statement about where positions go is made once per piece and read off at
the end.

Spans are plain pairs in the model, while the library only ever builds spans that run
forwards (`Span::new` asserts it). `SourceMap.Forward` names that promise; coverage facts
need it, lookups do not.
-/

namespace ShaderLink

namespace MapEntry

/-- The destination position `p` lies in the entry. -/
def Covers (e : MapEntry) (p : Nat) : Prop := e.destSpan.start ≤ p ∧ p < e.destSpan.stop

instance (e : MapEntry) (p : Nat) : Decidable (e.Covers p) :=
  inferInstanceAs (Decidable (_ ∧ _))

/-- Where the entry sends the destination position `p`: byte for byte in a copy, to the start
of its source span in a replacement. -/
def image (e : MapEntry) (p : Nat) : SourcePosition := ⟨e.src, e.offsetOf p e.srcSpan.start⟩

/-- Both spans of the entry run forwards. -/
def Forward (e : MapEntry) : Prop :=
  e.srcSpan.start ≤ e.srcSpan.stop ∧ e.destSpan.start ≤ e.destSpan.stop

instance (e : MapEntry) : Decidable e.Forward := inferInstanceAs (Decidable (_ ∧ _))

@[simp] theorem image_src (e : MapEntry) (p : Nat) : (e.image p).src = e.src := rfl

theorem image_offset (e : MapEntry) (p : Nat) :
    (e.image p).offset = if e.isCopy then e.srcSpan.start + (p - e.destSpan.start)
      else e.srcSpan.start := rfl

theorem isCopy_iff (e : MapEntry) :
    e.isCopy = true ↔ e.srcSpan.stop - e.srcSpan.start = e.destSpan.stop - e.destSpan.start := by
  simp [isCopy, Span.length]

/-- A non-empty entry whose destination runs forwards has a destination of positive length. -/
theorem start_lt_stop_of_filled {e : MapEntry} (hf : e.destSpan.start ≤ e.destSpan.stop)
    (hne : (!e.destSpan.isEmpty) = true) : e.destSpan.start < e.destSpan.stop := by
  simp only [Span.isEmpty, Bool.not_eq_true', beq_eq_false_iff_ne, ne_eq] at hne
  omega

/-- An entry covering some position is not empty. -/
theorem filled_of_covers {e : MapEntry} {p : Nat} (h : e.Covers p) :
    (!e.destSpan.isEmpty) = true := by
  simp only [Span.isEmpty, Bool.not_eq_true', beq_eq_false_iff_ne, ne_eq]
  obtain ⟨h₁, h₂⟩ := h
  omega

end MapEntry

/-- The spans of every entry of the map run forwards, as the library's spans always do. -/
def SourceMap.Forward (m : SourceMap) : Prop := ∀ e ∈ m.entries, e.Forward

instance (m : SourceMap) : Decidable m.Forward :=
  inferInstanceAs (Decidable (∀ e ∈ m.entries, e.Forward))

/-- `Tiles es a b`: the entries, in this order, cut `[a, b)` into consecutive non-empty
pieces. -/
def Tiles : List MapEntry → Nat → Nat → Prop
  | [], a, b => a = b
  | e :: es, a, b => e.destSpan.start = a ∧ a < e.destSpan.stop ∧ Tiles es e.destSpan.stop b

instance decidableTiles : ∀ (es : List MapEntry) (a b : Nat), Decidable (Tiles es a b)
  | [], a, b => inferInstanceAs (Decidable (a = b))
  | e :: es, _, b =>
    have := decidableTiles es e.destSpan.stop b
    inferInstanceAs (Decidable (_ ∧ _ ∧ _))

@[simp] theorem tiles_nil {a b : Nat} : Tiles [] a b ↔ a = b := Iff.rfl

@[simp] theorem tiles_cons {e : MapEntry} {es : List MapEntry} {a b : Nat} :
    Tiles (e :: es) a b ↔ e.destSpan.start = a ∧ a < e.destSpan.stop ∧ Tiles es e.destSpan.stop b :=
  Iff.rfl

/-- Every entry answers each position it covers as `R` allows. -/
def Agrees (es : List MapEntry) (R : Nat → SourcePosition → Prop) : Prop :=
  ∀ e ∈ es, ∀ p, e.Covers p → R p (e.image p)

namespace Tiles

theorem le : ∀ {es : List MapEntry} {a b : Nat}, Tiles es a b → a ≤ b
  | [], _, _, h => Nat.le_of_eq h
  | _ :: _, _, _, ⟨h₁, h₂, h₃⟩ => by
    have := le h₃
    omega

/-- Every entry of a tiling of `[a, b)` is a non-empty piece of it. -/
theorem bounds_of_mem : ∀ {es : List MapEntry} {a b : Nat}, Tiles es a b →
    ∀ e ∈ es, a ≤ e.destSpan.start ∧ e.destSpan.start < e.destSpan.stop ∧ e.destSpan.stop ≤ b
  | [], _, _, _, _, he => by simp at he
  | f :: fs, a, b, ⟨h₁, h₂, h₃⟩, e, he => by
    rcases List.mem_cons.1 he with rfl | he
    · exact ⟨by omega, by omega, h₃.le⟩
    · have := bounds_of_mem h₃ e he
      omega

/-- A tiling of an empty range has no entries. -/
theorem eq_nil_of_self : ∀ {es : List MapEntry} {a : Nat}, Tiles es a a → es = []
  | [], _, _ => rfl
  | _ :: _, _, ⟨h₁, h₂, h₃⟩ => by
    have := h₃.le
    omega

/-- A tiling has no empty entries to drop. -/
theorem filter_filled {es : List MapEntry} {a b : Nat} (h : Tiles es a b) :
    es.filter (fun e => !e.destSpan.isEmpty) = es :=
  List.filter_eq_self.2 fun x hx => MapEntry.filled_of_covers (p := x.destSpan.start)
    ⟨Nat.le_refl _, (h.bounds_of_mem x hx).2.1⟩

/-- A position covered by an entry of a tiling of `[a, b)` lies in `[a, b)`. -/
theorem covers_bounds {es : List MapEntry} {a b : Nat} (h : Tiles es a b) {e : MapEntry}
    (he : e ∈ es) {p : Nat} (hp : e.Covers p) : a ≤ p ∧ p < b := by
  have := h.bounds_of_mem e he
  obtain ⟨hp₁, hp₂⟩ := hp
  omega

/-- A tiling is sorted: each entry ends before the next ones start. -/
theorem pairwise : ∀ {es : List MapEntry} {a b : Nat}, Tiles es a b →
    es.Pairwise fun e f => e.destSpan.stop ≤ f.destSpan.start
  | [], _, _, _ => List.Pairwise.nil
  | _ :: _, _, _, ⟨_, _, h₃⟩ =>
    List.Pairwise.cons (fun f hf => (bounds_of_mem h₃ f hf).1) (pairwise h₃)

/-- Each position of `[a, b)` lies in some entry of a tiling of `[a, b)`. -/
theorem exists_covers : ∀ {es : List MapEntry} {a b : Nat}, Tiles es a b →
    ∀ {p : Nat}, a ≤ p → p < b → ∃ e ∈ es, e.Covers p
  | [], _, _, h, _, h₁, h₂ => by simp at h; omega
  | e :: es, a, b, ⟨h₁, h₂, h₃⟩, p, hp₁, hp₂ => by
    by_cases hp : p < e.destSpan.stop
    · exact ⟨e, List.mem_cons_self, by omega, hp⟩
    · obtain ⟨f, hf, hcov⟩ := exists_covers h₃ (Nat.le_of_not_lt hp) hp₂
      exact ⟨f, List.mem_cons_of_mem _ hf, hcov⟩

/-- No position lies in two entries of a tiling. -/
theorem eq_of_covers : ∀ {es : List MapEntry} {a b : Nat}, Tiles es a b →
    ∀ {e f : MapEntry}, e ∈ es → f ∈ es → ∀ {p : Nat}, e.Covers p → f.Covers p → e = f
  | [], _, _, _, _, _, he, _, _, _, _ => by simp at he
  | g :: gs, _, _, ⟨_, _, h₃⟩, e, f, he, hf, p, hpe, hpf => by
    have hb := bounds_of_mem h₃
    rcases List.mem_cons.1 he with rfl | he' <;> rcases List.mem_cons.1 hf with rfl | hf'
    · rfl
    · have := hb f hf'
      exact absurd hpe.2 (by have := hpf.1; omega)
    · have := hb e he'
      exact absurd hpf.2 (by have := hpe.1; omega)
    · exact eq_of_covers h₃ he' hf' hpe hpf

/-- Searching a tiling for the entry that covers a position finds the one that does. -/
theorem find?_covers : ∀ {es : List MapEntry} {a b : Nat}, Tiles es a b →
    ∀ {e : MapEntry}, e ∈ es → ∀ {p : Nat}, e.Covers p →
      es.find? (fun f => decide (f.Covers p)) = some e
  | [], _, _, _, _, he, _, _ => by simp at he
  | g :: gs, a, b, h, e, he, p, hp => by
    by_cases hg : g.Covers p
    · rw [List.find?_cons_of_pos (by simpa using hg)]
      exact congrArg some (eq_of_covers h List.mem_cons_self he hg hp)
    · rw [List.find?_cons_of_neg (by simpa using hg)]
      rcases List.mem_cons.1 he with rfl | he
      · exact absurd hp hg
      · exact find?_covers h.2.2 he hp

end Tiles

theorem tiles_append : ∀ {es fs : List MapEntry} {a c : Nat},
    Tiles (es ++ fs) a c ↔ ∃ b, Tiles es a b ∧ Tiles fs b c
  | [], fs, a, c => by simp
  | e :: es, fs, a, c => by
    simp only [List.cons_append, tiles_cons, tiles_append]
    constructor
    · rintro ⟨h₁, h₂, b, h₃, h₄⟩
      exact ⟨b, ⟨h₁, h₂, h₃⟩, h₄⟩
    · rintro ⟨b, ⟨h₁, h₂, h₃⟩, h₄⟩
      exact ⟨h₁, h₂, b, h₃, h₄⟩

theorem tiles_singleton {e : MapEntry} {a b : Nat} :
    Tiles [e] a b ↔ e.destSpan.start = a ∧ a < e.destSpan.stop ∧ e.destSpan.stop = b := by
  simp

/-- An entry whose destination runs forwards tiles that destination, once dropped if empty. -/
theorem tiles_filter_singleton {e : MapEntry} (h : e.destSpan.start ≤ e.destSpan.stop) :
    Tiles ([e].filter fun x => !x.destSpan.isEmpty) e.destSpan.start e.destSpan.stop := by
  by_cases hne : (!e.destSpan.isEmpty) = true
  · simp only [List.filter_cons, List.filter_nil, hne, if_true, tiles_singleton, true_and,
      and_true]
    exact MapEntry.start_lt_stop_of_filled h hne
  · simp only [List.filter_cons, List.filter_nil, hne]
    simpa [Span.isEmpty] using hne

theorem agrees_append {es fs : List MapEntry} {R : Nat → SourcePosition → Prop} :
    Agrees (es ++ fs) R ↔ Agrees es R ∧ Agrees fs R := by
  simp only [Agrees, List.mem_append]
  constructor
  · intro h
    exact ⟨fun e he => h e (Or.inl he), fun e he => h e (Or.inr he)⟩
  · rintro ⟨h₁, h₂⟩ e (he | he)
    · exact h₁ e he
    · exact h₂ e he

theorem Agrees.filter {es : List MapEntry} {R : Nat → SourcePosition → Prop} (h : Agrees es R)
    (q : MapEntry → Bool) : Agrees (es.filter q) R :=
  fun e he => h e (List.mem_filter.1 he).1

theorem Agrees.mono {es : List MapEntry} {R S : Nat → SourcePosition → Prop} (h : Agrees es R)
    (hRS : ∀ p x, R p x → S p x) : Agrees es S :=
  fun e he p hp => hRS p _ (h e he p hp)

namespace SourceMap

/-! ### Appending a fragment -/

@[simp] theorem add_id (m : SourceMap) (fragment src : String) (span : Span) :
    (m.add fragment src span).id = m.id := rfl

@[simp] theorem add_destSize (m : SourceMap) (fragment src : String) (span : Span) :
    (m.add fragment src span).destSize = m.destSize + fragment.utf8ByteSize :=
  String.utf8ByteSize_append

theorem add_entries_toList (m : SourceMap) (fragment src : String) (span : Span) :
    (m.add fragment src span).entries.toList =
      m.entries.toList ++ [⟨src, span, ⟨m.destSize, m.destSize + fragment.utf8ByteSize⟩⟩] := by
  simp [add, destSize, String.utf8ByteSize_append]

/-! ### The coverage check -/

/-- Walking entries whose destinations run forwards, the coverage check from `covered` finds
nothing wrong exactly when the non-empty ones tile `[covered, len)`. -/
theorem coverageFrom_eq_none_iff (len : Nat) : ∀ (es : List MapEntry) (covered : Nat),
    (∀ e ∈ es, e.destSpan.start ≤ e.destSpan.stop) →
    (coverageFrom len es covered = none ↔
      Tiles (es.filter fun e => !e.destSpan.isEmpty) covered len)
  | [], covered, _ => by
    simp only [coverageFrom, List.filter_nil, tiles_nil]
    split
    · simp only [reduceCtorEq, false_iff]
      omega
    · split
      · simp only [reduceCtorEq, false_iff]
        omega
      · simp only [true_iff]
        omega
  | e :: es, covered, hfw => by
    have hrest := coverageFrom_eq_none_iff len es
    have hes : ∀ f ∈ es, f.destSpan.start ≤ f.destSpan.stop :=
      fun f hf => hfw f (List.mem_cons_of_mem _ hf)
    have he := hfw e List.mem_cons_self
    simp only [coverageFrom, List.filter_cons]
    by_cases hemp : e.destSpan.isEmpty = true
    · simp only [hemp, if_true, Bool.not_true, Bool.false_eq_true, if_false]
      exact hrest covered hes
    · have hlt : e.destSpan.start < e.destSpan.stop :=
        MapEntry.start_lt_stop_of_filled he (by simpa using hemp)
      simp only [hemp, Bool.false_eq_true, if_false, Bool.not_false, if_true, tiles_cons]
      split
      · simp only [reduceCtorEq, false_iff, not_and]
        omega
      · split
        · simp only [reduceCtorEq, false_iff, not_and]
          omega
        · rw [hrest e.destSpan.stop hes]
          constructor
          · intro h
            exact ⟨by omega, by omega, h⟩
          · rintro ⟨-, -, h⟩
            exact h

/-- A map whose destinations run forwards passes the coverage check exactly when its non-empty
entries, in stored order, tile its destination. -/
theorem checkCoverage_eq_none_iff {m : SourceMap}
    (hm : ∀ e ∈ m.entries, e.destSpan.start ≤ e.destSpan.stop) :
    m.checkCoverage = none ↔
      Tiles (m.entries.toList.filter fun e => !e.destSpan.isEmpty) 0 m.destSize :=
  coverageFrom_eq_none_iff _ _ _ fun e he => hm e (by simpa using he)

/-- A map whose entries, in stored order, tile its destination passes the coverage check. -/
theorem checkCoverage_of_tiles {m : SourceMap} (h : Tiles m.entries.toList 0 m.destSize) :
    m.checkCoverage = none := by
  have hfw : ∀ e ∈ m.entries, e.destSpan.start ≤ e.destSpan.stop :=
    fun e he => Nat.le_of_lt (h.bounds_of_mem e (Array.mem_toList_iff.2 he)).2.1
  rw [checkCoverage_eq_none_iff hfw, h.filter_filled]
  exact h

end SourceMap

end ShaderLink
