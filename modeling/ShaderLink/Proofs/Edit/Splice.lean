import ShaderLink.Edit.Splice
import ShaderLink.Proofs.SourceMap.Merge
import ShaderLink.Proofs.Text.Slicing
import Mathlib.Data.List.Chain

/-!
# Splicing, step by step

`splice` keeps the splices inside its bounds, sorts them by `(start, stop)` and walks them in
that order (`spliceFrom`), copying the text up to each splice and then its replacement; a splice
that starts before the previous one ends is a fault. This module describes the walk.

* **When it faults.** Two splices *overlap* when one starts inside the other, after it starts
  or with bytes of its own (`Splice.Overlaps`); insertions may stand at either end of a span or
  share a place. The walk meets no fault exactly when each splice starts after the one before
  ends (`Splice.StartsAfter`), and on splices sorted by `(start, stop)` that holds exactly when
  no two of them overlap (`startsAfter_iff_pairwise_apart`): comparing neighbours is enough.
  Otherwise the walk stops at the first splice that starts before the end of the one before
  (`spliceFrom_eq_error`).
* **What it builds.** Without a fault, the walk appends the text with the splices applied
  (`Splice.apply`) and, for each splice, a copy of the text before it and then its replacement
  (`Splice.pieces`, `spliceFrom_eq_ok`); splicing then copies the rest of the range and
  compacts (`Splice.walkMap`, `splice_eq_ok_walkMap`).

The splices' spans are read as slices of the text (`Span.Within`): the walk copies the text
between them, which needs character boundaries.
-/

namespace ShaderLink

/-- A successful `x >>= f` in `Except` ran `x` to a value and `f` on that value. -/
theorem exists_of_bind_eq_ok {ε α β : Type} {x : Except ε α} {f : α → Except ε β} {b : β}
    (h : x >>= f = .ok b) : ∃ a, x = .ok a ∧ f a = .ok b := by
  cases x with
  | error e => cases h
  | ok a => exact ⟨a, rfl, h⟩

instance (t : List Char) (lo hi : Nat) (s : Span) : Decidable (s.Within t lo hi) :=
  decidable_of_iff (lo ≤ s.start ∧ s.start ≤ s.stop ∧ s.stop ≤ hi ∧
      Text.isBoundary t s.start = true ∧ Text.isBoundary t s.stop = true)
    ⟨fun ⟨h₁, h₂, h₃, h₄, h₅⟩ => ⟨h₁, h₂, h₃, h₄, h₅⟩, fun h => ⟨h.1, h.2, h.3, h.4, h.5⟩⟩

/-! ### Lexicographic order of spans -/

namespace Span

theorem le_iff (s t : Span) :
    s.le t = true ↔ s.start < t.start ∨ (s.start = t.start ∧ s.stop ≤ t.stop) := by
  simp [le]

theorem le_trans' {s t u : Span} (hst : s.le t = true) (htu : t.le u = true) : s.le u = true := by
  rw [le_iff] at *
  omega

theorem le_total' (s t : Span) : (s.le t || t.le s) = true := by
  rw [Bool.or_eq_true, le_iff, le_iff]
  omega

theorem describe_eq (s : Span) :
    s.describe = "Span \x7b start: " ++ toString s.start ++ ", end: " ++ toString s.stop ++ " \x7d" := rfl

end Span

namespace Splice

/-! ### Overlapping splices -/

/-- `s.Overlaps t`: `t` starts inside `s`, after `s` starts or with bytes of its own. An
insertion at either end of `s` does not overlap it. -/
def Overlaps (s t : Splice) : Prop :=
  s.span.start ≤ t.span.start ∧ t.span.start < s.span.stop ∧
    (s.span.start < t.span.start ∨ t.span.start ≠ t.span.stop)

/-- Neither of two splices overlaps the other. -/
def Apart (s t : Splice) : Prop := ¬ s.Overlaps t ∧ ¬ t.Overlaps s

instance (s t : Splice) : Decidable (s.Overlaps t) := inferInstanceAs (Decidable (_ ∧ _ ∧ _))

instance (s t : Splice) : Decidable (s.Apart t) := inferInstanceAs (Decidable (_ ∧ _))

theorem Apart.symm {s t : Splice} (h : s.Apart t) : t.Apart s := ⟨h.2, h.1⟩

/-- Of two splices in `(start, stop)` order that are apart, the first ends by the time the
second starts. -/
theorem Apart.stop_le_start {s t : Splice} (hle : s.span.le t.span = true) (h : s.Apart t) :
    s.span.stop ≤ t.span.start := by
  rw [Span.le_iff] at hle
  by_contra hlt
  exact h.1 ⟨by omega, by omega, by omega⟩

/-- A splice running forwards and ending by the time another starts is apart from it. -/
theorem apart_of_stop_le_start {s t : Splice} (hs : s.span.start ≤ s.span.stop)
    (h : s.span.stop ≤ t.span.start) : s.Apart t := by
  refine ⟨fun ho => ?_, fun ho => ?_⟩
  · exact absurd ho.2.1 (by omega)
  · obtain ⟨h₁, h₂, h₃⟩ := ho
    omega

/-! ### The walk over sorted splices -/

/-- Where the text resumes after sorted splices: the end of the last, or `a` when there are
none. -/
def resume : Nat → List Splice → Nat
  | a, [] => a
  | _, s :: ss => resume s.span.stop ss

/-- Where the text copied before sorted splices ends: the start of the first, or `e` when
there are none. -/
def nextStart (e : Nat) : List Splice → Nat
  | [] => e
  | s :: _ => s.span.start

/-- The splices start one after another: the first at or after `a`, each at or after the end
of the one before. -/
def StartsAfter : Nat → List Splice → Prop
  | _, [] => True
  | a, s :: ss => a ≤ s.span.start ∧ StartsAfter s.span.stop ss

/-- The bytes `[a, e)` of `text` with sorted splices applied: the text up to each splice, then
its replacement, and after the last one the text up to `e`. -/
def apply (text : String) : List Splice → Nat → Nat → String
  | [], a, e => (Text.sliceString? text ⟨a, e⟩).getD ""
  | s :: ss, a, e =>
    (Text.sliceString? text ⟨a, s.span.start⟩).getD "" ++ s.replacement ++
      apply text ss s.span.stop e

/-- The entry of a copy of the bytes `[a, e)` of `text`, put at byte `d` of the destination. -/
def copyEntry (text id : String) (a e d : Nat) : MapEntry :=
  ⟨id, ⟨a, e⟩, ⟨d, d + ((Text.sliceString? text ⟨a, e⟩).getD "").utf8ByteSize⟩⟩

/-- The entries that the walk over sorted splices appends from byte `a` of `text` at byte `d`
of the destination: for each splice, a copy of the text before it, then its replacement. -/
def pieces (text id : String) : List Splice → Nat → Nat → List MapEntry
  | [], _, _ => []
  | s :: ss, a, d =>
    let copy := copyEntry text id a s.span.start d
    let d' := copy.destSpan.stop + s.replacement.utf8ByteSize
    copy :: ⟨id, s.span, ⟨copy.destSpan.stop, d'⟩⟩ :: pieces text id ss s.span.stop d'

variable {text id : String}

@[simp] theorem resume_nil (a : Nat) : resume a [] = a := rfl

@[simp] theorem resume_cons (a : Nat) (s : Splice) (ss : List Splice) :
    resume a (s :: ss) = resume s.span.stop ss := rfl

theorem resume_append (a : Nat) (pre post : List Splice) :
    resume a (pre ++ post) = resume (resume a pre) post := by
  induction pre generalizing a with
  | nil => rfl
  | cons s pre ih => exact ih s.span.stop

@[simp] theorem apply_nil_self (a : Nat) : apply text [] a a = "" :=
  Text.sliceString?_self_getD text a

/-- Applying splices one part after another: the text up to where the first part's copy
resumes, then the rest from there. -/
theorem apply_append (pre post : List Splice) (a e : Nat) :
    apply text (pre ++ post) a e = apply text pre a (resume a pre) ++ apply text post (resume a pre) e := by
  induction pre generalizing a with
  | nil => simp [apply_nil_self]
  | cons s pre ih =>
    simp only [List.cons_append, apply, ih, resume_cons, String.append_assoc]

/-- The spliced text is what the walk appends, then the text from where it resumes to `e`. -/
theorem apply_eq_append_rest (ss : List Splice) (a e : Nat) :
    apply text ss a e =
      apply text ss a (resume a ss) ++ (Text.sliceString? text ⟨resume a ss, e⟩).getD "" := by
  have h := @apply_append text ss [] a e
  rwa [List.append_nil] at h

theorem pieces_append (pre post : List Splice) (a d : Nat) :
    pieces text id (pre ++ post) a d = pieces text id pre a d ++
      pieces text id post (resume a pre) (d + (apply text pre a (resume a pre)).utf8ByteSize) := by
  induction pre generalizing a d with
  | nil => simp [apply_nil_self, pieces]
  | cons s pre ih =>
    simp only [List.cons_append, pieces, copyEntry, ih, resume_cons, apply,
      String.utf8ByteSize_append, List.cons.injEq, true_and]
    congr 2
    omega

/-- Splices starting one after another, each a slice of the text between `lo` and `hi`, end by
`hi`. -/
theorem resume_le {lo hi : Nat} :
    ∀ {ss : List Splice} {a : Nat}, a ≤ hi → (∀ s ∈ ss, s.span.Within text.toList lo hi) →
      resume a ss ≤ hi
  | [], _, ha, _ => ha
  | s :: ss, _, _, hs => by
    rw [resume_cons]
    exact resume_le (hs s List.mem_cons_self).stop_le fun t ht => hs t (List.mem_cons_of_mem _ ht)

/-- The text resumes after splices that are slices of it on a character boundary. -/
theorem resume_boundary {lo hi : Nat} : ∀ {ss : List Splice} {a : Nat},
    (∀ s ∈ ss, s.span.Within text.toList lo hi) → Text.isBoundary text.toList a = true →
      Text.isBoundary text.toList (resume a ss) = true
  | [], _, _, ha => ha
  | s :: ss, _, hs, _ => by
    rw [resume_cons]
    exact resume_boundary (fun t ht => hs t (List.mem_cons_of_mem _ ht)) (hs s List.mem_cons_self).stop_boundary

/-- The last of splices starting one after another ends where the text resumes. -/
theorem resume_append_singleton (a : Nat) (pre : List Splice) (s : Splice) :
    resume a (pre ++ [s]) = s.span.stop := by
  rw [resume_append]
  rfl

theorem startsAfter_append : ∀ {a : Nat} {pre post : List Splice},
    StartsAfter a (pre ++ post) ↔ StartsAfter a pre ∧ StartsAfter (resume a pre) post
  | _, [], _ => by simp [StartsAfter]
  | _, s :: pre, post => by
    simp only [List.cons_append, StartsAfter, resume_cons, startsAfter_append, and_assoc]

/-- Splices that run forwards and start one after another resume no earlier than they began. -/
theorem le_resume : ∀ {a : Nat} {ss : List Splice}, StartsAfter a ss →
    (∀ s ∈ ss, s.span.start ≤ s.span.stop) → a ≤ resume a ss
  | _, [], _, _ => Nat.le_refl _
  | _, s :: ss, ⟨_, hrest⟩, hfw => by
    rw [resume_cons]
    have := le_resume hrest fun t ht => hfw t (List.mem_cons_of_mem _ ht)
    have := hfw s List.mem_cons_self
    omega

/-! ### When the walk faults -/

theorem StartsAfter.isChain : ∀ {a : Nat} {ss : List Splice}, StartsAfter a ss →
    ss.IsChain fun u v => u.span.stop ≤ v.span.start
  | _, [], _ => .nil
  | _, [_], _ => .singleton _
  | _, _ :: _ :: _, ⟨_, h₁, h₂⟩ => .cons_cons h₁ (StartsAfter.isChain (a := 0) ⟨Nat.zero_le _, h₂⟩)

/-- Splices that run forwards and start one after another all start at or after `a`. -/
theorem StartsAfter.le_start : ∀ {a : Nat} {ss : List Splice}, StartsAfter a ss →
    (∀ s ∈ ss, s.span.start ≤ s.span.stop) → ∀ t ∈ ss, a ≤ t.span.start
  | _, [], _, _, _, ht => absurd ht List.not_mem_nil
  | _, s :: ss, ⟨ha, hrest⟩, hfw, t, ht => by
    rcases List.mem_cons.1 ht with rfl | ht
    · exact ha
    · have := le_start hrest (fun u hu => hfw u (List.mem_cons_of_mem _ hu)) t ht
      have := hfw s List.mem_cons_self
      omega

/-- Splices that run forwards and start one after another are pairwise apart. -/
theorem StartsAfter.pairwise_apart : ∀ {a : Nat} {ss : List Splice}, StartsAfter a ss →
    (∀ s ∈ ss, s.span.start ≤ s.span.stop) → ss.Pairwise Apart
  | _, [], _, _ => .nil
  | _, s :: ss, ⟨_, hrest⟩, hfw => by
    have hfw' : ∀ u ∈ ss, u.span.start ≤ u.span.stop := fun u hu => hfw u (List.mem_cons_of_mem _ hu)
    exact .cons (fun t ht => apart_of_stop_le_start (hfw s List.mem_cons_self) (hrest.le_start hfw' t ht))
      (pairwise_apart hrest hfw')

/-- **Neighbours decide.** Splices sorted by `(start, stop)` and pairwise apart start one after
another. -/
theorem startsAfter_of_pairwise : ∀ {a : Nat} {ss : List Splice},
    ss.Pairwise (fun s t => s.span.le t.span = true) → ss.Pairwise Apart →
      (∀ t ∈ ss, a ≤ t.span.start) → StartsAfter a ss
  | _, [], _, _, _ => trivial
  | _, s :: ss, hle, hap, ha => by
    obtain ⟨hle₁, hle₂⟩ := List.pairwise_cons.1 hle
    obtain ⟨hap₁, hap₂⟩ := List.pairwise_cons.1 hap
    exact ⟨ha s List.mem_cons_self, startsAfter_of_pairwise hle₂ hap₂
      fun t ht => (hap₁ t ht).stop_le_start (hle₁ t ht)⟩

/-- On splices sorted by `(start, stop)` that run forwards and start at or after `a`, starting
one after another is being pairwise apart. -/
theorem startsAfter_iff_pairwise_apart {a : Nat} {ss : List Splice}
    (hle : ss.Pairwise fun s t => s.span.le t.span = true)
    (hfw : ∀ s ∈ ss, s.span.start ≤ s.span.stop) (ha : ∀ t ∈ ss, a ≤ t.span.start) :
    StartsAfter a ss ↔ ss.Pairwise Apart :=
  ⟨fun h => h.pairwise_apart hfw, fun h => startsAfter_of_pairwise hle h ha⟩

end Splice

open Splice

variable {text id : String}

theorem spliceFrom_cons (s : Splice) (ss : List Splice) (a : Nat) (m : SourceMap) :
    spliceFrom text id (s :: ss) a m =
      if s.span.start < a then .error (.overlappingSplice s.span) else
        (m.addCopy text id ⟨a, s.span.start⟩) >>= fun m =>
          spliceFrom text id ss s.span.stop (m.add s.replacement id s.span) := by
  simp only [spliceFrom]
  split <;> rfl

/-- A walk that ends without a fault met splices starting one after another. -/
theorem startsAfter_of_spliceFrom_eq_ok : ∀ {ss : List Splice} {a : Nat} {m : SourceMap}
    {r : Nat × SourceMap}, spliceFrom text id ss a m = .ok r → StartsAfter a ss
  | [], _, _, _, _ => trivial
  | s :: ss, a, m, r, h => by
    rw [spliceFrom_cons] at h
    split at h
    · cases h
    · next hlt =>
      obtain ⟨m₁, -, h⟩ := exists_of_bind_eq_ok h
      exact ⟨Nat.le_of_not_lt hlt, startsAfter_of_spliceFrom_eq_ok h⟩

namespace SourceMap

theorem addCopy_of_slice {m : SourceMap} {text src piece : String} {span : Span}
    (h : Text.sliceString? text span = some piece) : m.addCopy text src span = .ok (m.add piece src span) := by
  simp [addCopy, h]
  rfl

end SourceMap

/-- Copying the bytes from a boundary `a` up to the start of a splice that is a slice of the
text and starts at or after `a` succeeds. -/
theorem sliceString?_gap {lo hi a : Nat} {s : Splice} (hw : s.span.Within text.toList lo hi)
    (ha : Text.isBoundary text.toList a = true) (has : a ≤ s.span.start) :
    ∃ piece, Text.sliceString? text ⟨a, s.span.start⟩ = some piece ∧
      piece.utf8ByteSize = s.span.start - a :=
  (show Span.Within text.toList a s.span.start ⟨a, s.span.start⟩ from
    ⟨Nat.le_refl _, has, Nat.le_refl _, ha, hw.start_boundary⟩).sliceString?

/-- **The walk without a fault.** Over splices that are slices of the text and start one after
another from a boundary `a`, the walk appends the text with the splices applied and, for each
splice, a copy of the text before it and then its replacement. -/
theorem spliceFrom_eq_ok {lo hi : Nat} : ∀ {ss : List Splice} {a : Nat} (m : SourceMap),
    (∀ s ∈ ss, s.span.Within text.toList lo hi) → Text.isBoundary text.toList a = true →
      StartsAfter a ss →
      ∃ m', spliceFrom text id ss a m = .ok (resume a ss, m') ∧ m'.id = m.id ∧
        m'.dest = m.dest ++ apply text ss a (resume a ss) ∧
        m'.entries.toList = m.entries.toList ++ pieces text id ss a m.destSize
  | [], a, m, _, _, _ => ⟨m, rfl, rfl, by simp, by simp [pieces]⟩
  | s :: ss, a, m, hs, ha, ⟨has, hrest⟩ => by
    have hw := hs s List.mem_cons_self
    obtain ⟨piece, hpiece, -⟩ := sliceString?_gap hw ha has
    -- the rest of the walk starts from the map with the copy and the replacement added
    obtain ⟨m', hwalk, hid, hdest, hentries⟩ :=
      spliceFrom_eq_ok ((m.add piece id ⟨a, s.span.start⟩).add s.replacement id s.span)
        (fun t ht => hs t (List.mem_cons_of_mem _ ht)) hw.stop_boundary hrest
    refine ⟨m', ?_, hid, ?_, ?_⟩
    · rw [spliceFrom_cons, if_neg (by omega), SourceMap.addCopy_of_slice hpiece]
      exact hwalk
    · rw [hdest]
      simp only [SourceMap.add, apply, hpiece, Option.getD_some, resume_cons, String.append_assoc]
    · rw [hentries, SourceMap.add_entries_toList, SourceMap.add_entries_toList]
      simp [pieces, copyEntry, hpiece, Nat.add_assoc]

/-- **The walk's fault.** A walk over slices of the text from a boundary `a` that faults stops
at the first splice that starts before the end of the one before it (or before `a`), and
reports that splice's span. -/
theorem spliceFrom_eq_error {lo hi : Nat} : ∀ {ss : List Splice} {a : Nat} {m : SourceMap}
    {f : Fault}, (∀ s ∈ ss, s.span.Within text.toList lo hi) →
      Text.isBoundary text.toList a = true → spliceFrom text id ss a m = .error f →
      ∃ pre t post, ss = pre ++ t :: post ∧ StartsAfter a pre ∧ t.span.start < resume a pre ∧
        f = .overlappingSplice t.span
  | [], _, _, _, _, _, h => by cases h
  | s :: ss, a, m, f, hs, ha, h => by
    rw [spliceFrom_cons] at h
    split at h
    · next hlt =>
      cases h
      exact ⟨[], s, ss, rfl, trivial, hlt, rfl⟩
    · next hge =>
      have hw := hs s List.mem_cons_self
      obtain ⟨piece, hpiece, -⟩ := sliceString?_gap hw ha (Nat.le_of_not_lt hge)
      rw [SourceMap.addCopy_of_slice hpiece] at h
      simp only [bind, Except.bind] at h
      obtain ⟨pre, t, post, rfl, hpre, hlt, rfl⟩ :=
        spliceFrom_eq_error (fun t ht => hs t (List.mem_cons_of_mem _ ht)) hw.stop_boundary h
      exact ⟨s :: pre, t, post, rfl, ⟨Nat.le_of_not_lt hge, hpre⟩, hlt, rfl⟩

/-! ### Splicing a text -/

namespace Splice

/-- The part of `text` a splice keeps: the bounds, or else all of it. -/
def range (text : String) (bounds : Option Span) : Span := bounds.getD ⟨0, text.utf8ByteSize⟩

/-- The splices that lie inside a range, in the order given. -/
def keptIn (b : Span) (splices : List Splice) : List Splice := splices.filter fun s => b.contains s.span

/-- The splices inside a range in `(start, stop)` order, equal spans in the order given. -/
def ordered (b : Span) (splices : List Splice) : List Splice :=
  (keptIn b splices).insertionSort fun s t => s.span.le t.span = true

theorem ordered_perm (b : Span) (splices : List Splice) : (ordered b splices).Perm (keptIn b splices) :=
  List.perm_insertionSort _ _

theorem ordered_pairwise (b : Span) (splices : List Splice) :
    (ordered b splices).Pairwise fun s t => s.span.le t.span = true := by
  have : Std.Total fun s t : Splice => s.span.le t.span = true :=
    ⟨fun s t => by simpa using Span.le_total' s.span t.span⟩
  have : IsTrans Splice fun s t => s.span.le t.span = true := ⟨fun _ _ _ => Span.le_trans'⟩
  exact List.pairwise_insertionSort _ _

theorem mem_ordered {b : Span} {splices : List Splice} {s : Splice} :
    s ∈ ordered b splices ↔ s ∈ keptIn b splices :=
  (ordered_perm b splices).mem_iff

/-- Sorting keeps splices of one span in the order given. -/
theorem ordered_stable {b : Span} {splices : List Splice} {s t : Splice} (hst : s.span = t.span)
    (h : List.Sublist [s, t] (keptIn b splices)) : List.Sublist [s, t] (ordered b splices) :=
  List.pair_sublist_insertionSort (by rw [Span.le_iff, hst]; omega) h

theorem mem_keptIn {b : Span} {splices : List Splice} {s : Splice} :
    s ∈ keptIn b splices ↔ s ∈ splices ∧ b.start ≤ s.span.start ∧ s.span.stop ≤ b.stop := by
  simp [keptIn, Span.contains]

/-- The whole text is a range of it, and so are bounds inside it. -/
theorem range_within {bounds : Option Span}
    (hb : ∀ b ∈ bounds, b.Within text.toList 0 text.utf8ByteSize) :
    (range text bounds).Within text.toList 0 text.utf8ByteSize := by
  cases bounds with
  | some b => exact hb b rfl
  | none =>
    have hend : Text.isBoundary text.toList text.utf8ByteSize = true := by
      simpa [Text.byteSize_toList] using Text.isBoundary_byteSize text.toList []
    exact ⟨Nat.le_refl _, Nat.zero_le _, Nat.le_refl _, by simp [Text.isBoundary, range], hend⟩

/-- The map that splicing sorted splices `ss` into the range `b` builds before compacting: the
walk's pieces, then a copy of the rest of the range. -/
def walkMap (text id : String) (b : Span) (ss : List Splice) : SourceMap :=
  let c := resume b.start ss
  ⟨splicedId id, apply text ss b.start b.stop,
    (pieces text id ss b.start 0 ++
      [copyEntry text id c b.stop (apply text ss b.start c).utf8ByteSize]).toArray⟩

end Splice

theorem splice_eq (splices : List Splice) (bounds : Option Span) :
    splice text id splices bounds =
      spliceFrom text id (ordered (range text bounds) splices) (range text bounds).start
          (SourceMap.empty (splicedId id)) >>= fun r =>
        if (range text bounds).stop < r.1 then .error .reversedSpan else
          r.2.addCopy text id ⟨r.1, (range text bounds).stop⟩ >>= fun m => pure m.compact := by
  rw [ordered, ← sortBy_eq_insertionSort]
  rfl

section Result

variable {splices : List Splice} {bounds : Option Span}

/-- Splicing kept splices that start one after another builds the walk's map and compacts
it. -/
theorem splice_eq_ok_walkMap (hb : ∀ b ∈ bounds, b.Within text.toList 0 text.utf8ByteSize)
    (hs : ∀ s ∈ keptIn (range text bounds) splices,
      s.span.Within text.toList (range text bounds).start (range text bounds).stop)
    (hstarts : StartsAfter (range text bounds).start (ordered (range text bounds) splices)) :
    splice text id splices bounds =
      .ok (walkMap text id (range text bounds) (ordered (range text bounds) splices)).compact := by
  have hr := range_within hb
  have hs' : ∀ s ∈ ordered (range text bounds) splices, s.span.Within text.toList
      (range text bounds).start (range text bounds).stop := fun s hmem => hs s (mem_ordered.1 hmem)
  obtain ⟨m', hwalk, hid, hdest, hentries⟩ := @spliceFrom_eq_ok text id _ _ _ _
    (SourceMap.empty (splicedId id)) hs' hr.start_boundary hstarts
  have hle := resume_le hr.start_le hs'
  -- the copy from where the walk resumes to the end of the range succeeds
  have hcopy : Span.Within text.toList 0 (range text bounds).stop
      ⟨resume (range text bounds).start (ordered (range text bounds) splices), (range text bounds).stop⟩ :=
    ⟨Nat.zero_le _, hle, Nat.le_refl _, resume_boundary hs' hr.start_boundary, hr.stop_boundary⟩
  obtain ⟨piece, hpiece, -⟩ := hcopy.sliceString?
  rw [splice_eq, hwalk]
  simp only [bind, Except.bind, if_neg (Nat.not_lt.2 hle), SourceMap.addCopy_of_slice hpiece]
  -- the copy of the rest of the range is the last entry of the walk's map
  suffices hmap : m'.add piece id _ = walkMap text id (range text bounds) (ordered (range text bounds) splices) by
    rw [hmap]
    rfl
  obtain ⟨i, dst, es⟩ := m'
  simp only [SourceMap.empty] at hid hdest hentries
  simp only [SourceMap.add, walkMap, SourceMap.mk.injEq]
  refine ⟨hid, ?_, ?_⟩
  · rw [hdest, String.empty_append, apply_eq_append_rest _ _ (range text bounds).stop, hpiece,
      Option.getD_some]
  · apply Array.toList_inj.1
    rw [Array.toList_push, hentries]
    simp [copyEntry, hpiece, SourceMap.destSize, hdest]

end Result

section Faults

variable {splices : List Splice} {bounds : Option Span}

/-- With its range and the kept splices slices of the text, splicing succeeds exactly when
the walk over the ordered splices meets no fault, and fails with the walk's fault otherwise. -/
theorem splice_eq_ok_iff (hb : ∀ b ∈ bounds, b.Within text.toList 0 text.utf8ByteSize)
    (hs : ∀ s ∈ keptIn (range text bounds) splices,
      s.span.Within text.toList (range text bounds).start (range text bounds).stop) :
    (∃ m, splice text id splices bounds = .ok m) ↔
      StartsAfter (range text bounds).start (ordered (range text bounds) splices) := by
  refine ⟨fun ⟨m, hm⟩ => ?_, fun hstarts => ⟨_, splice_eq_ok_walkMap hb hs hstarts⟩⟩
  rw [splice_eq] at hm
  obtain ⟨r, hr, -⟩ := exists_of_bind_eq_ok hm
  exact startsAfter_of_spliceFrom_eq_ok hr

/-- With the kept splices slices of the range, the ordered ones start one after another exactly
when no two of them overlap. -/
theorem startsAfter_ordered_iff
    (hs : ∀ s ∈ keptIn (range text bounds) splices,
      s.span.Within text.toList (range text bounds).start (range text bounds).stop) :
    StartsAfter (range text bounds).start (ordered (range text bounds) splices) ↔
      (keptIn (range text bounds) splices).Pairwise Apart := by
  have hs' : ∀ s ∈ ordered (range text bounds) splices, s.span.Within text.toList
      (range text bounds).start (range text bounds).stop := fun s hmem => hs s (mem_ordered.1 hmem)
  rw [startsAfter_iff_pairwise_apart (ordered_pairwise _ _) (fun s hmem => (hs' s hmem).start_le)
    (fun s hmem => (hs' s hmem).lo_le)]
  exact (ordered_perm _ _).pairwise_iff Apart.symm

/-- **Splicing faults exactly on overlapping splices.** For a range inside the text and kept
splices that are slices of it, splicing succeeds exactly when no two kept splices overlap;
splices outside the range never fault. When it fails, the fault names the first splice, in
`(start, stop)` order, that starts before the end of the splice before it, with the message
`slice Span { start: S, end: E } overlaps the previous one`. -/
theorem splice_faults_iff_overlap (text id : String) (splices : List Splice) (bounds : Option Span)
    (hb : ∀ b ∈ bounds, b.Within text.toList 0 text.utf8ByteSize)
    (hs : ∀ s ∈ keptIn (range text bounds) splices,
      s.span.Within text.toList (range text bounds).start (range text bounds).stop) :
    ((∃ m, splice text id splices bounds = .ok m) ↔
        (keptIn (range text bounds) splices).Pairwise Apart) ∧
      ∀ f, splice text id splices bounds = .error f →
        ∃ pre s t post, ordered (range text bounds) splices = pre ++ s :: t :: post ∧
          (pre ++ [s]).IsChain (fun u v => u.span.stop ≤ v.span.start) ∧
          t.span.start < s.span.stop ∧ f = .overlappingSplice t.span ∧
          f.message? = some ("slice Span \x7b start: " ++ toString t.span.start ++ ", end: " ++
            toString t.span.stop ++ " \x7d overlaps the previous one") := by
  have hs' : ∀ s ∈ ordered (range text bounds) splices, s.span.Within text.toList
      (range text bounds).start (range text bounds).stop := fun s hmem => hs s (mem_ordered.1 hmem)
  have hiff := @splice_eq_ok_iff text id splices bounds hb hs
  refine ⟨hiff.trans (startsAfter_ordered_iff hs), fun f h => ?_⟩
  · rw [splice_eq] at h
    cases hwalk : spliceFrom text id (ordered (range text bounds) splices) (range text bounds).start
        (SourceMap.empty (splicedId id)) with
    | ok r =>
      -- a walk without a fault makes the splice succeed
      obtain ⟨m, hm⟩ := hiff.2 (startsAfter_of_spliceFrom_eq_ok hwalk)
      rw [splice_eq, h] at hm
      cases hm
    | error f' =>
      rw [hwalk] at h
      cases h
      obtain ⟨pre, t, post, hsplit, hpre, hlt, rfl⟩ :=
        spliceFrom_eq_error hs' (range_within hb).start_boundary hwalk
      -- the first splice starts in the range, so some splice comes before the faulting one
      rcases List.eq_nil_or_concat pre with rfl | ⟨pre', s, rfl⟩
      · have := (hs' t (by rw [hsplit]; simp)).lo_le
        simp only [resume_nil] at hlt
        omega
      · rw [List.concat_eq_append, resume_append_singleton] at *
        refine ⟨pre', s, t, post, by simpa using hsplit, hpre.isChain, hlt, rfl, ?_⟩
        -- the message, with its literal pieces joined
        simp only [Fault.message?, Span.describe_eq, String.append_assoc]
        rfl

/-- An insertion strictly inside a replaced span overlaps it, so splicing faults. -/
theorem splice_faults_on_insertion_inside :
    (∀ b ∈ (none : Option Span), b.Within "abcdef".toList 0 "abcdef".utf8ByteSize) ∧
      (∀ s ∈ keptIn (range "abcdef" none) [⟨⟨1, 4⟩, "X"⟩, ⟨⟨2, 2⟩, "Y"⟩],
        s.span.Within "abcdef".toList (range "abcdef" none).start (range "abcdef" none).stop) ∧
      ∀ m, splice "abcdef" "a" [⟨⟨1, 4⟩, "X"⟩, ⟨⟨2, 2⟩, "Y"⟩] none ≠ .ok m := by
  have hb : ∀ b ∈ (none : Option Span), b.Within "abcdef".toList 0 "abcdef".utf8ByteSize := by simp
  have hs : ∀ s ∈ keptIn (range "abcdef" none) [⟨⟨1, 4⟩, "X"⟩, ⟨⟨2, 2⟩, "Y"⟩],
      s.span.Within "abcdef".toList (range "abcdef" none).start (range "abcdef" none).stop := by
    decide
  refine ⟨hb, hs, fun m hm => ?_⟩
  have hoverlap : ¬ (keptIn (range "abcdef" none) [⟨⟨1, 4⟩, "X"⟩, ⟨⟨2, 2⟩, "Y"⟩]).Pairwise Apart := by
    decide
  exact hoverlap ((splice_faults_iff_overlap "abcdef" "a" _ none hb hs).1.1 ⟨m, hm⟩)

end Faults

end ShaderLink
