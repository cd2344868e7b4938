import ShaderLink.Proofs.Edit.SpliceMap

/-!
# What the copies of a spliced map hold

A map entry whose two spans have one length is a *copy*, and lookups go through it byte for
byte. Splicing makes such an entry for each run of text it copies, but also for a replacement
exactly as long as the span it replaces; compaction cannot tell the two apart and joins that
replacement to the copies around it. So the destination of a copy entry is the input over its
source span only where no replacement of that kind was made: `abcd` with `bc` replaced by `xy`
is mapped by one copy entry, whose destination `axyd` is not the input's `abcd`
(`sameLengthReplacement_breaks_copy`).

This module says exactly what a copy holds. `Splice.copiedText` is the input with those kept
splices applied whose replacement is as long as its span, the others written back as the text
they cover. Every copy entry of a spliced map holds `copiedText` over its source span, and when
each same-length replacement writes the text it covers (in particular when there is none),
`copiedText` is the input and every copy entry holds the input (`splice_copies_hold`).

The argument has two steps. The walk's pieces hold it, each copy of the text between splices
and each same-length replacement (`Splice.walkPieces_hold`), and joining two neighbouring
copies joins what they hold (`MapEntry.Holds.joined`), so compaction keeps it
(`SourceMap.compactEntries_holds`). Slices are compared as strings standing between two others
(`Text.sliceString?_eq_some_iff`), so two slices that meet make one (`Text.sliceString?_append`).
-/

namespace ShaderLink

namespace Text

/-- Of two prefixes of one text with one byte size, each is the other. -/
theorem eq_of_prefix_of_byteSize_eq {cs p q r s : List Char} (hp : cs = p ++ r) (hq : cs = q ++ s)
    (h : byteSize p = byteSize q) : p = q := by
  obtain ⟨mid, hmid⟩ := prefix_of_byteSize_le hp hq (Nat.le_of_eq h)
  have hsize : byteSize mid = 0 := by
    rw [hmid, byteSize_append] at h
    omega
  rw [hmid, eq_nil_of_byteSize_eq_zero hsize, List.append_nil]

/-- A slice of a string is a string standing between two others, the first as long as the
slice's start. -/
theorem sliceString?_eq_some_iff {s piece : String} {a b : Nat} :
    sliceString? s ⟨a, b⟩ = some piece ↔
      ∃ x y, s = x ++ piece ++ y ∧ x.utf8ByteSize = a ∧ b = a + piece.utf8ByteSize := by
  constructor
  · intro h
    simp only [sliceString?, slice?] at h
    split at h
    · next hab =>
      -- the text splits before the start, and what follows splits after the span's bytes
      cases h₁ : splitAt? s.toList a with
      | none => simp [h₁] at h
      | some pr =>
        obtain ⟨pre, rest⟩ := pr
        cases h₂ : splitAt? rest (b - a) with
        | none => simp [h₁, h₂] at h
        | some pr' =>
          obtain ⟨mid, suf⟩ := pr'
          simp [h₁, h₂] at h
          obtain ⟨hs, hpre⟩ := splitAt?_eq_some_iff.1 h₁
          obtain ⟨hrest, hmid⟩ := splitAt?_eq_some_iff.1 h₂
          refine ⟨String.ofList pre, String.ofList suf, ?_, by rw [utf8ByteSize_ofList, hpre], ?_⟩
          · rw [← h, ← String.toList_inj]
            simp [hs, hrest]
          · rw [← h, utf8ByteSize_ofList, hmid]
            omega
    · simp at h
  · rintro ⟨x, y, rfl, rfl, rfl⟩
    exact sliceString?_middle x piece y

/-- Two slices of a string that meet make one slice, the first followed by the second. -/
theorem sliceString?_append {s p q : String} {a b c : Nat}
    (h₁ : sliceString? s ⟨a, b⟩ = some p) (h₂ : sliceString? s ⟨b, c⟩ = some q) :
    sliceString? s ⟨a, c⟩ = some (p ++ q) := by
  obtain ⟨x, y, rfl, rfl, rfl⟩ := sliceString?_eq_some_iff.1 h₁
  obtain ⟨x', y', hs, hx', rfl⟩ := sliceString?_eq_some_iff.1 h₂
  -- the text before the second slice is the text before the first, then the first
  have hpre : x ++ p = x' := by
    rw [← String.toList_inj]
    refine eq_of_prefix_of_byteSize_eq
      (show (x ++ p ++ y).toList = (x ++ p).toList ++ y.toList by simp)
      (show (x ++ p ++ y).toList = x'.toList ++ (q ++ y').toList by rw [hs]; simp) ?_
    rw [byteSize_toList, byteSize_toList, hx', String.utf8ByteSize_append]
  rw [← hpre] at hs
  rw [sliceString?_eq_some_iff]
  refine ⟨x, y', ?_, rfl, by rw [String.utf8ByteSize_append]; omega⟩
  rw [hs]
  simp only [String.append_assoc]

end Text

/-! ### What an entry holds -/

namespace MapEntry

/-- The entry holds the text `src` over its source span: its bytes in the destination `dest`
are that text. -/
def Holds (dest src : String) (e : MapEntry) : Prop :=
  ∃ piece, Text.sliceString? dest e.destSpan = some piece ∧ Text.sliceString? src e.srcSpan = some piece

variable {D X : String} {prev e : MapEntry}

/-- Two neighbouring copies that compaction joins hold, together, what the joined copy holds. -/
theorem Holds.joined (hp : prev.Holds D X) (he : e.Holds D X) (hj : prev.joinsWith e = true) :
    (prev.joined e).Holds D X := by
  obtain ⟨-, -, -, hsrc, hdest⟩ := joinsWith_iff.1 hj
  obtain ⟨p, hpd, hps⟩ := hp
  obtain ⟨q, hqd, hqs⟩ := he
  have hqd' : Text.sliceString? D ⟨prev.destSpan.stop, e.destSpan.stop⟩ = some q := by
    rw [hdest]
    exact hqd
  have hqs' : Text.sliceString? X ⟨prev.srcSpan.stop, e.srcSpan.stop⟩ = some q := by
    rw [hsrc]
    exact hqs
  exact ⟨p ++ q, Text.sliceString?_append hpd hqd', Text.sliceString?_append hps hqs'⟩

end MapEntry

namespace SourceMap

variable {D X : String}

/-- One round of the join loop keeps every copy of the accumulator holding `X`. -/
theorem holds_joinInto {acc : List MapEntry} {e : MapEntry}
    (hacc : ∀ x ∈ acc, x.isCopy = true → x.Holds D X) (he : e.isCopy = true → e.Holds D X) :
    ∀ x ∈ joinInto acc e, x.isCopy = true → x.Holds D X := by
  intro x hx hxc
  cases acc with
  | nil =>
    rw [joinInto_nil, List.mem_singleton] at hx
    subst hx
    exact he hxc
  | cons prev rest =>
    rw [joinInto_cons] at hx
    split at hx
    · next hj =>
      -- a join is made only of two copies
      obtain ⟨-, hpc, hec, -, -⟩ := MapEntry.joinsWith_iff.1 hj
      rcases List.mem_cons.1 hx with rfl | hx
      · exact (hacc prev List.mem_cons_self hpc).joined (he hec) hj
      · exact hacc x (List.mem_cons_of_mem _ hx) hxc
    · rcases List.mem_cons.1 hx with rfl | hx
      · exact he hxc
      · exact hacc x hx hxc

theorem holds_foldl_joinInto : ∀ (l acc : List MapEntry),
    (∀ x ∈ acc, x.isCopy = true → x.Holds D X) → (∀ e ∈ l, e.isCopy = true → e.Holds D X) →
      ∀ x ∈ l.foldl joinInto acc, x.isCopy = true → x.Holds D X
  | [], _, hacc, _ => hacc
  | e :: l, acc, hacc, hl =>
    holds_foldl_joinInto l (joinInto acc e)
      (holds_joinInto hacc (hl e List.mem_cons_self)) fun x hx => hl x (List.mem_cons_of_mem _ hx)

/-- **Compaction keeps what copies hold.** When every copy among some entries holds `X`, so
does every copy among their compaction. -/
theorem compactEntries_holds {es : List MapEntry} (h : ∀ e ∈ es, e.isCopy = true → e.Holds D X) :
    ∀ x ∈ compactEntries es, x.isCopy = true → x.Holds D X := by
  intro x hx
  unfold compactEntries at hx
  rw [List.mem_reverse] at hx
  exact holds_foldl_joinInto _ [] (fun _ h => absurd h List.not_mem_nil)
    (fun e he => h e (List.mem_filter.1 ((mem_sortBy _).1 he)).1) x hx

end SourceMap

/-! ### The text that copies hold -/

namespace Splice

variable {text id : String}

/-- The splice as the copies of a spliced map see it: itself when its replacement is as long
as the span it replaces, and otherwise a splice writing back the text it covers. -/
def asCopyIn (text : String) (s : Splice) : Splice :=
  if s.replacement.utf8ByteSize = s.span.stop - s.span.start then s
  else ⟨s.span, (Text.sliceString? text s.span).getD ""⟩

/-- The text that the copies of a map spliced into the range `b` hold: the text with those of
the splices `ss` applied whose replacement is as long as the span it replaces. -/
def copiedText (text : String) (b : Span) (ss : List Splice) : String :=
  (Text.sliceString? text ⟨0, b.start⟩).getD "" ++ apply text (ss.map (asCopyIn text)) b.start b.stop ++
    (Text.sliceString? text ⟨b.stop, text.utf8ByteSize⟩).getD ""

@[simp] theorem asCopyIn_span (s : Splice) : (asCopyIn text s).span = s.span := by
  unfold asCopyIn
  split <;> rfl

/-- A splice that is a slice of the text keeps its length as the copies see it. -/
theorem asCopyIn_size {lo hi : Nat} {s : Splice} (hw : s.span.Within text.toList lo hi) :
    (asCopyIn text s).replacement.utf8ByteSize = s.span.stop - s.span.start := by
  unfold asCopyIn
  split
  · assumption
  · exact hw.utf8ByteSize_getD

theorem asCopyIn_of_size {s : Splice} (h : s.replacement.utf8ByteSize = s.span.stop - s.span.start) :
    asCopyIn text s = s := if_pos h

theorem resume_map_asCopyIn : ∀ (a : Nat) (ss : List Splice),
    resume a (ss.map (asCopyIn text)) = resume a ss
  | _, [] => rfl
  | _, s :: ss => by
    rw [List.map_cons, resume_cons, resume_cons, asCopyIn_span]
    exact resume_map_asCopyIn _ ss

theorem startsAfter_map_asCopyIn : ∀ {a : Nat} {ss : List Splice},
    StartsAfter a (ss.map (asCopyIn text)) ↔ StartsAfter a ss
  | _, [] => Iff.rfl
  | _, s :: ss => by
    simp only [List.map_cons, StartsAfter, asCopyIn_span, startsAfter_map_asCopyIn]

/-- The walk appends at destination byte `d` the text between splices as copies and each
replacement as one entry; the entries after `d`, with a copy of the text from where the walk
resumes up to `e`, are the walk's pieces. -/
theorem walkPieces_hold {lo hi e : Nat} {D X : String} : ∀ {ss : List Splice} {a d : Nat}
    (Dpre Xpre Dpost Xpost : String),
    (∀ s ∈ ss, s.span.Within text.toList lo hi) → Text.isBoundary text.toList a = true →
      StartsAfter a ss → resume a ss ≤ e → Text.isBoundary text.toList e = true →
      D = Dpre ++ apply text ss a e ++ Dpost →
      X = Xpre ++ apply text (ss.map (asCopyIn text)) a e ++ Xpost →
      Dpre.utf8ByteSize = d → Xpre.utf8ByteSize = a →
      ∀ f ∈ pieces text id ss a d ++
          [copyEntry text id (resume a ss) e (d + (apply text ss a (resume a ss)).utf8ByteSize)],
        f.isCopy = true → f.Holds D X
  | [], a, d, Dpre, Xpre, Dpost, Xpost, _, ha, _, hae, he, hD, hX, hd, hx, f, hf, _ => by
    -- only the copy of the rest is left
    simp only [pieces, List.nil_append, List.mem_singleton, resume_nil, apply_nil_self,
      String.utf8ByteSize_empty, Nat.add_zero] at hf hae
    subst hf
    have hsize : ((Text.sliceString? text ⟨a, e⟩).getD "").utf8ByteSize = e - a :=
      (show Span.Within text.toList a e ⟨a, e⟩ from
        ⟨Nat.le_refl _, hae, Nat.le_refl _, ha, he⟩).utf8ByteSize_getD
    simp only [apply, List.map_nil] at hD hX
    refine ⟨(Text.sliceString? text ⟨a, e⟩).getD "", ?_, ?_⟩
    · exact Text.sliceString?_eq_some_iff.2 ⟨Dpre, Dpost, hD, hd, rfl⟩
    · exact Text.sliceString?_eq_some_iff.2 ⟨Xpre, Xpost, hX, hx, by rw [hsize]; omega⟩
  | ⟨⟨st, sp⟩, r⟩ :: ss, a, d, Dpre, Xpre, Dpost, Xpost, hs, ha, ⟨has, hrest⟩, hae, he, hD, hX, hd,
      hx, f, hf, hcopy => by
    have hw := hs _ List.mem_cons_self
    obtain ⟨gap, hgap, hgapsize⟩ := sliceString?_gap hw ha has
    have hsize := asCopyIn_size hw
    have hfw := hw.start_le
    simp only at has hgap hgapsize hsize hfw
    simp only [apply, List.map_cons, asCopyIn_span, hgap, Option.getD_some] at hD hX
    -- where the rest of the walk starts in the destination, and where its last copy goes
    have hnext : (copyEntry text id a st d).destSpan.stop + r.utf8ByteSize =
        (Dpre ++ gap ++ r).utf8ByteSize := by
      simp [copyEntry, hgap, hd]
    have hlast : d + (apply text (⟨⟨st, sp⟩, r⟩ :: ss) a (resume a (⟨⟨st, sp⟩, r⟩ :: ss))).utf8ByteSize =
        (Dpre ++ gap ++ r).utf8ByteSize + (apply text ss sp (resume sp ss)).utf8ByteSize := by
      rw [resume_cons, utf8ByteSize_apply_cons]
      simp only [hgap, Option.getD_some, String.utf8ByteSize_append, hd]
      omega
    rw [hlast, resume_cons] at hf
    simp only [pieces, List.cons_append, List.mem_cons, hnext] at hf
    rcases hf with rfl | rfl | hf
    · -- the copy of the text before the splice
      simp only [copyEntry, hgap, Option.getD_some]
      refine ⟨gap, Text.sliceString?_eq_some_iff.2
          ⟨Dpre, r ++ apply text ss sp e ++ Dpost, ?_, hd, rfl⟩,
        Text.sliceString?_eq_some_iff.2 ⟨Xpre, (asCopyIn text ⟨⟨st, sp⟩, r⟩).replacement ++
          apply text (ss.map (asCopyIn text)) sp e ++ Xpost, ?_, hx, by omega⟩⟩
      · rw [hD]
        simp only [String.append_assoc]
      · rw [hX]
        simp only [String.append_assoc]
    · -- a replacement counts as a copy only when it is as long as its span
      have hlen : r.utf8ByteSize = sp - st := by
        have h := (MapEntry.isCopy_iff _).1 hcopy
        simp only [copyEntry, hgap, Option.getD_some, String.utf8ByteSize_append, hd] at h
        omega
      rw [asCopyIn_of_size hlen] at hX
      simp only [copyEntry, hgap, Option.getD_some]
      refine ⟨r, Text.sliceString?_eq_some_iff.2
          ⟨Dpre ++ gap, apply text ss sp e ++ Dpost, ?_, ?_, by simp [String.utf8ByteSize_append, hd]⟩,
        Text.sliceString?_eq_some_iff.2
          ⟨Xpre ++ gap, apply text (ss.map (asCopyIn text)) sp e ++ Xpost, ?_, ?_, ?_⟩⟩
      · rw [hD]
        simp only [String.append_assoc]
      · rw [String.utf8ByteSize_append, hd]
      · rw [hX]
        simp only [String.append_assoc]
      · rw [String.utf8ByteSize_append]
        omega
      · omega
    · -- the rest of the walk, with the copy and the replacement moved into the prefixes
      exact walkPieces_hold (D := D) (X := X) (Dpre ++ gap ++ r)
        (Xpre ++ gap ++ (asCopyIn text ⟨⟨st, sp⟩, r⟩).replacement) Dpost Xpost
        (fun t ht => hs t (List.mem_cons_of_mem _ ht)) hw.stop_boundary hrest hae he
        (by rw [hD]; simp only [String.append_assoc]) (by rw [hX]; simp only [String.append_assoc])
        rfl (by simp only [String.utf8ByteSize_append, hx, hsize]; omega) f hf hcopy

/-- Every copy among the entries of the walk's map holds the copied text over its source
span. -/
theorem walkMap_holds {b : Span} {ss : List Splice} (hb : b.Within text.toList 0 text.utf8ByteSize)
    (hs : ∀ s ∈ ss, s.span.Within text.toList b.start b.stop) (hstarts : StartsAfter b.start ss) :
    ∀ f ∈ (walkMap text id b ss).entries, f.isCopy = true →
      f.Holds (walkMap text id b ss).dest (copiedText text b ss) := by
  intro f hf
  rw [← Array.mem_toList_iff, walkMap_entries] at hf
  have hpre : Span.Within text.toList 0 text.utf8ByteSize ⟨0, b.start⟩ :=
    ⟨Nat.le_refl _, Nat.zero_le _, hb.start_le.trans hb.stop_le, by simp [Text.isBoundary],
      hb.start_boundary⟩
  have hwalk := @walkPieces_hold text id b.start b.stop b.stop (apply text ss b.start b.stop)
    (copiedText text b ss) ss b.start 0 ""
    ((Text.sliceString? text ⟨0, b.start⟩).getD "") ""
    ((Text.sliceString? text ⟨b.stop, text.utf8ByteSize⟩).getD "") hs hb.start_boundary hstarts
    (resume_le hb.start_le hs) hb.stop_boundary (by simp) rfl rfl
    (by rw [hpre.utf8ByteSize_getD, Nat.sub_zero]) f
  rw [Nat.zero_add] at hwalk
  exact hwalk hf

/-- Splices that write back the text they cover leave the text as it is. -/
theorem apply_eq_slice_of_writeBack {lo hi e : Nat} : ∀ {ss : List Splice} {a : Nat},
    (∀ s ∈ ss, s.span.Within text.toList lo hi) → (∀ s ∈ ss, Text.sliceString? text s.span = some s.replacement) →
      Text.isBoundary text.toList a = true → StartsAfter a ss → resume a ss ≤ e →
      Text.isBoundary text.toList e = true →
      ∃ piece, Text.sliceString? text ⟨a, e⟩ = some piece ∧ apply text ss a e = piece
  | [], a, _, _, ha, _, hae, he => by
    obtain ⟨piece, hpiece, -⟩ :=
      (show Span.Within text.toList a e ⟨a, e⟩ from ⟨Nat.le_refl _, hae, Nat.le_refl _, ha, he⟩).sliceString?
    exact ⟨piece, hpiece, by simp [apply, hpiece]⟩
  | s :: ss, a, hs, hback, ha, ⟨has, hrest⟩, hae, he => by
    have hw := hs s List.mem_cons_self
    obtain ⟨gap, hgap, -⟩ := sliceString?_gap hw ha has
    obtain ⟨rest, hslice, happly⟩ := apply_eq_slice_of_writeBack
      (fun t ht => hs t (List.mem_cons_of_mem _ ht)) (fun t ht => hback t (List.mem_cons_of_mem _ ht))
      hw.stop_boundary hrest hae he
    have hs' : Text.sliceString? text ⟨s.span.start, s.span.stop⟩ = some s.replacement :=
      hback s List.mem_cons_self
    refine ⟨gap ++ s.replacement ++ rest, ?_, ?_⟩
    · exact Text.sliceString?_append (Text.sliceString?_append hgap hs') hslice
    · simp only [apply, hgap, Option.getD_some, happly]

/-- When each splice as long as its span writes back the text it covers, the copied text is
the text itself. -/
theorem copiedText_eq_self {b : Span} {ss : List Splice}
    (hb : b.Within text.toList 0 text.utf8ByteSize)
    (hs : ∀ s ∈ ss, s.span.Within text.toList b.start b.stop) (hstarts : StartsAfter b.start ss)
    (hback : ∀ s ∈ ss, s.replacement.utf8ByteSize = s.span.stop - s.span.start →
      Text.sliceString? text s.span = some s.replacement) :
    copiedText text b ss = text := by
  have hs' : ∀ s ∈ ss.map (asCopyIn text), s.span.Within text.toList b.start b.stop := by
    simp only [List.mem_map]
    rintro _ ⟨s, hs₁, rfl⟩
    rw [asCopyIn_span]
    exact hs s hs₁
  -- every splice as the copies see it writes back the text it covers
  have hback' : ∀ s ∈ ss.map (asCopyIn text), Text.sliceString? text s.span = some s.replacement := by
    simp only [List.mem_map]
    rintro _ ⟨s, hs₁, rfl⟩
    unfold asCopyIn
    split
    · next hlen => exact hback s hs₁ hlen
    · obtain ⟨piece, hpiece, -⟩ := (hs s hs₁).sliceString?
      simp [hpiece]
  have hend : resume b.start (ss.map (asCopyIn text)) ≤ b.stop := by
    rw [resume_map_asCopyIn]
    exact resume_le hb.start_le hs
  obtain ⟨piece, hpiece, happly⟩ := apply_eq_slice_of_writeBack hs' hback' hb.start_boundary
    (startsAfter_map_asCopyIn.2 hstarts) hend hb.stop_boundary
  have hpre : Span.Within text.toList 0 text.utf8ByteSize ⟨0, b.start⟩ :=
    ⟨Nat.le_refl _, Nat.zero_le _, hb.start_le.trans hb.stop_le, by simp [Text.isBoundary],
      hb.start_boundary⟩
  have hpost : Span.Within text.toList 0 text.utf8ByteSize ⟨b.stop, text.utf8ByteSize⟩ :=
    ⟨Nat.zero_le _, hb.stop_le, Nat.le_refl _, hb.stop_boundary,
      by simpa [Text.byteSize_toList] using Text.isBoundary_byteSize text.toList []⟩
  obtain ⟨x, hx, -⟩ := hpre.sliceString?
  obtain ⟨y, hy, -⟩ := hpost.sliceString?
  -- the three slices meet, and together they are the whole text
  have hall := Text.sliceString?_append (Text.sliceString?_append hx hpiece) hy
  have hwhole : Text.sliceString? text ⟨0, text.utf8ByteSize⟩ = some text :=
    Text.sliceString?_eq_some_iff.2 ⟨"", "", by simp, rfl, by simp⟩
  rw [hwhole, Option.some.injEq] at hall
  rw [copiedText, hx, hy, Option.getD_some, Option.getD_some, happly]
  exact hall.symm

end Splice

open Splice

/-- **What the copies of a spliced map hold.** For a range inside the text and kept splices
that are slices of it, no two overlapping, splicing succeeds, and every copy entry of its map
(source and destination spans of one length) has as destination the copied text over its
source span: the text with those kept splices applied whose replacement is as long as its
span. When each such replacement writes back the text it covers, in particular when no
replacement is as long as its span, every copy entry has as destination the text itself over
its source span. -/
theorem splice_copies_hold (text id : String) (splices : List Splice) (bounds : Option Span)
    (hb : ∀ b ∈ bounds, b.Within text.toList 0 text.utf8ByteSize)
    (hs : ∀ s ∈ keptIn (range text bounds) splices,
      s.span.Within text.toList (range text bounds).start (range text bounds).stop)
    (hapart : (keptIn (range text bounds) splices).Pairwise Apart) :
    ∃ m, splice text id splices bounds = .ok m ∧
      (∀ e ∈ m.entries, e.isCopy = true →
        e.Holds m.dest (copiedText text (range text bounds) (ordered (range text bounds) splices))) ∧
      ((∀ s ∈ keptIn (range text bounds) splices,
          s.replacement.utf8ByteSize = s.span.stop - s.span.start →
            Text.sliceString? text s.span = some s.replacement) →
        ∀ e ∈ m.entries, e.isCopy = true → e.Holds m.dest text) := by
  have hr := range_within hb
  have hs' : ∀ s ∈ ordered (range text bounds) splices, s.span.Within text.toList
      (range text bounds).start (range text bounds).stop := fun s hmem => hs s (mem_ordered.1 hmem)
  have hstarts := (startsAfter_ordered_iff hs).2 hapart
  -- the copies of the compacted map hold what the copies of the walk's map hold
  have hcopies : ∀ e ∈ (walkMap text id (range text bounds) (ordered (range text bounds) splices)).compact.entries,
      e.isCopy = true → e.Holds (walkMap text id (range text bounds) (ordered (range text bounds) splices)).dest
        (copiedText text (range text bounds) (ordered (range text bounds) splices)) := by
    intro e he
    rw [← Array.mem_toList_iff, SourceMap.compact_entries_toList] at he
    exact SourceMap.compactEntries_holds
      (fun f hf => walkMap_holds hr hs' hstarts f (Array.mem_toList_iff.1 hf)) e he
  refine ⟨_, splice_eq_ok_walkMap hb hs hstarts, hcopies, fun hback e he hc => ?_⟩
  have h := hcopies e he hc
  rwa [copiedText_eq_self hr hs' hstarts fun s hmem => hback s (mem_ordered.1 hmem)] at h

/-- Replacing `bc` in `abcd` by `xy` meets every condition of splicing, and the copies of the
map hold `axyd`. -/
theorem sameLengthReplacement_copies_hold :
    (∀ b ∈ (none : Option Span), b.Within "abcd".toList 0 "abcd".utf8ByteSize) ∧
      (∀ s ∈ keptIn (range "abcd" none) [⟨⟨1, 3⟩, "xy"⟩],
        s.span.Within "abcd".toList (range "abcd" none).start (range "abcd" none).stop) ∧
      (keptIn (range "abcd" none) [⟨⟨1, 3⟩, "xy"⟩]).Pairwise Apart ∧
      ∃ m, splice "abcd" "test" [⟨⟨1, 3⟩, "xy"⟩] none = .ok m ∧
        ∀ e ∈ m.entries, e.isCopy = true →
          e.Holds m.dest (copiedText "abcd" (range "abcd" none) (ordered (range "abcd" none) [⟨⟨1, 3⟩, "xy"⟩])) := by
  have hb : ∀ b ∈ (none : Option Span), b.Within "abcd".toList 0 "abcd".utf8ByteSize := by simp
  have hs : ∀ s ∈ keptIn (range "abcd" none) [⟨⟨1, 3⟩, "xy"⟩],
      s.span.Within "abcd".toList (range "abcd" none).start (range "abcd" none).stop := by
    decide
  have hapart : (keptIn (range "abcd" none) [⟨⟨1, 3⟩, "xy"⟩]).Pairwise Apart := by decide
  exact ⟨hb, hs, hapart,
    (splice_copies_hold "abcd" "test" [⟨⟨1, 3⟩, "xy"⟩] none hb hs hapart).imp fun _ h => ⟨h.1, h.2.1⟩⟩

/-- A replacement as long as its span is a copy to the map: replacing `bc` in `abcd` by `xy`
gives one copy entry over the whole text, whose destination `axyd` is not the input. -/
theorem sameLengthReplacement_breaks_copy :
    splice "abcd" "test" [⟨⟨1, 3⟩, "xy"⟩] none = .ok ⟨"test#sliced", "axyd", #[⟨"test", ⟨0, 4⟩, ⟨0, 4⟩⟩]⟩ ∧
      (⟨"test", ⟨0, 4⟩, ⟨0, 4⟩⟩ : MapEntry).isCopy = true ∧
      ¬ (⟨"test", ⟨0, 4⟩, ⟨0, 4⟩⟩ : MapEntry).Holds "axyd" "abcd" := by
  refine ⟨by decide, by decide, ?_⟩
  rintro ⟨piece, hdest, hsrc⟩
  have hdest' : Text.sliceString? "axyd" ⟨0, 4⟩ = some "axyd" := by decide
  have hsrc' : Text.sliceString? "abcd" ⟨0, 4⟩ = some "abcd" := by decide
  rw [hdest'] at hdest
  rw [hsrc'] at hsrc
  exact absurd ((Option.some.inj hdest).trans (Option.some.inj hsrc).symm) (by decide)

end ShaderLink
