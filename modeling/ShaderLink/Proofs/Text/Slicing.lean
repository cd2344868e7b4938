import ShaderLink.Proofs.Parse.Reading
import Mathlib.Data.List.Infix

/-!
# Slicing text at byte offsets

Texts are character lists while offsets count UTF-8 bytes, so a byte offset splits a text only
on a character boundary. This module characterises the split (`splitAt?_eq_some_iff`): the
text is the two parts put together and the first has the offset's byte size. From it, slicing
between two boundaries in order succeeds and gives exactly the bytes between them
(`slice?_of_isBoundary`, `Span.Within.sliceString?`), and the byte size of a string is the
byte size of its characters (`utf8ByteSize_ofList`), so the two ways of counting agree.
-/

namespace ShaderLink

namespace Text

theorem utf8ByteSize_ofList (cs : List Char) : (String.ofList cs).utf8ByteSize = byteSize cs := by
  induction cs with
  | nil => rfl
  | cons c cs ih =>
    rw [← List.singleton_append, String.ofList_append, String.utf8ByteSize_append,
      ← String.singleton_eq_ofList, String.utf8ByteSize_singleton, ih]
    rfl

theorem byteSize_toList (s : String) : byteSize s.toList = s.utf8ByteSize := by
  rw [← utf8ByteSize_ofList, String.ofList_toList]

/-- A text of no bytes has no characters. -/
theorem eq_nil_of_byteSize_eq_zero {cs : List Char} (h : byteSize cs = 0) : cs = [] := by
  cases cs with
  | nil => rfl
  | cons c cs =>
    have := Char.utf8Size_pos c
    simp only [byteSize_cons] at h
    omega

/-- A split at a byte offset is the text cut in two, the first part of that many bytes. -/
theorem splitAt?_eq_some_iff {cs pre suf : List Char} {n : Nat} :
    splitAt? cs n = some (pre, suf) ↔ cs = pre ++ suf ∧ byteSize pre = n := by
  refine ⟨fun h => ?_, fun ⟨hcs, hn⟩ => hcs ▸ hn ▸ splitAt?_byteSize pre suf⟩
  induction cs generalizing n pre with
  | nil =>
    cases n with
    | zero =>
      simp only [splitAt?_zero, Option.some.injEq, Prod.mk.injEq] at h
      obtain ⟨rfl, rfl⟩ := h
      exact ⟨rfl, rfl⟩
    | succ n => simp [splitAt?] at h
  | cons c cs ih =>
    cases n with
    | zero =>
      simp only [splitAt?_zero, Option.some.injEq, Prod.mk.injEq] at h
      obtain ⟨rfl, rfl⟩ := h
      exact ⟨rfl, rfl⟩
    | succ n =>
      simp only [splitAt?] at h
      split at h
      · next hc =>
        -- the first character goes in front of the split of the rest
        obtain ⟨⟨p, r⟩, hsplit, hpair⟩ := Option.map_eq_some_iff.1 h
        simp only [Prod.mk.injEq] at hpair
        obtain ⟨rfl, rfl⟩ := hpair
        obtain ⟨rfl, hp⟩ := ih hsplit
        refine ⟨rfl, ?_⟩
        simp only [byteSize_cons, hp]
        omega
      · cases h

theorem isBoundary_iff {cs : List Char} {n : Nat} :
    isBoundary cs n = true ↔ ∃ pre suf, cs = pre ++ suf ∧ byteSize pre = n := by
  simp only [isBoundary, Option.isSome_iff_exists, Prod.exists, splitAt?_eq_some_iff]

/-- Of two prefixes of one text, the one of fewer bytes is a prefix of the other. -/
theorem prefix_of_byteSize_le {cs p q r s : List Char} (hp : cs = p ++ r) (hq : cs = q ++ s)
    (hle : byteSize p ≤ byteSize q) : ∃ mid, q = p ++ mid := by
  rcases List.prefix_or_prefix_of_prefix ⟨r, hp.symm⟩ ⟨s, hq.symm⟩ with ⟨mid, hmid⟩ | ⟨mid, hmid⟩
  · exact ⟨mid, hmid.symm⟩
  · -- `q` is a prefix of `p` of at least its byte size: they are equal
    have hsize : byteSize mid = 0 := by
      rw [← hmid, byteSize_append] at hle
      omega
    rw [eq_nil_of_byteSize_eq_zero hsize, List.append_nil] at hmid
    exact ⟨[], by rw [hmid, List.append_nil]⟩

/-- Between two boundaries in order, slicing gives the bytes between them. -/
theorem slice?_of_isBoundary {cs : List Char} {a b : Nat} (hab : a ≤ b)
    (ha : isBoundary cs a = true) (hb : isBoundary cs b = true) :
    ∃ pre mid suf, cs = pre ++ mid ++ suf ∧ byteSize pre = a ∧ byteSize mid = b - a ∧
      slice? cs a b = some mid := by
  obtain ⟨pa, ra, hca, hpa⟩ := isBoundary_iff.1 ha
  obtain ⟨pb, rb, hcb, hpb⟩ := isBoundary_iff.1 hb
  obtain ⟨mid, rfl⟩ := prefix_of_byteSize_le hca hcb (by omega)
  have hmid : byteSize mid = b - a := by
    rw [← hpa, ← hpb, byteSize_append]
    omega
  have hra : ra = mid ++ rb := by
    rw [hcb, List.append_assoc] at hca
    exact (List.append_cancel_left hca).symm
  refine ⟨pa, mid, rb, hcb, hpa, hmid, ?_⟩
  have hsplit₁ : splitAt? cs a = some (pa, ra) := splitAt?_eq_some_iff.2 ⟨hca, hpa⟩
  have hsplit₂ : splitAt? ra (b - a) = some (mid, rb) := splitAt?_eq_some_iff.2 ⟨hra, hmid⟩
  simp [slice?, hab, hsplit₁, hsplit₂]

/-- A slice of no bytes is empty, whether or not the offset is a boundary. -/
theorem sliceString?_self_getD (s : String) (a : Nat) :
    (sliceString? s ⟨a, a⟩).getD "" = "" := by
  cases h : splitAt? s.toList a with
  | none => simp [sliceString?, slice?, h]
  | some pr => simp [sliceString?, slice?, h, String.ofList_nil]

/-- Characters between two runs of others are the slice of the whole between their own ends. -/
theorem slice?_middle (x mid y : List Char) :
    slice? (x ++ mid ++ y) (byteSize x) (byteSize x + byteSize mid) = some mid := by
  have h₁ : splitAt? (x ++ mid ++ y) (byteSize x) = some (x, mid ++ y) :=
    splitAt?_eq_some_iff.2 ⟨List.append_assoc _ _ _, rfl⟩
  have h₂ : splitAt? (mid ++ y) (byteSize mid) = some (mid, y) := splitAt?_eq_some_iff.2 ⟨rfl, rfl⟩
  unfold slice?
  rw [if_pos (Nat.le_add_right _ _), h₁]
  simp [h₂]

/-- A string between two others is the slice of the whole between its own ends. -/
theorem sliceString?_middle (x piece y : String) :
    sliceString? (x ++ piece ++ y) ⟨x.utf8ByteSize, x.utf8ByteSize + piece.utf8ByteSize⟩ = some piece := by
  have h := slice?_middle x.toList piece.toList y.toList
  rw [byteSize_toList, byteSize_toList] at h
  simp only [sliceString?, String.toList_append, h, Option.map_some, String.ofList_toList]

end Text

namespace Span.Within

variable {t : List Char} {lo hi : Nat} {sp : Span}

/-- A span of a text between two boundaries slices it, into as many bytes as it spans. -/
theorem sliceString? {s : String} (h : sp.Within s.toList lo hi) :
    ∃ piece, Text.sliceString? s sp = some piece ∧ piece.utf8ByteSize = sp.stop - sp.start := by
  obtain ⟨-, mid, -, -, -, hmid, hslice⟩ :=
    Text.slice?_of_isBoundary h.start_le h.start_boundary h.stop_boundary
  exact ⟨String.ofList mid, by simp [Text.sliceString?, hslice], by
    rw [Text.utf8ByteSize_ofList, hmid]⟩

/-- The text a span slices, read with an empty default, has the span's byte length. -/
theorem utf8ByteSize_getD {s : String} (h : sp.Within s.toList lo hi) :
    ((Text.sliceString? s sp).getD "").utf8ByteSize = sp.stop - sp.start := by
  obtain ⟨piece, hpiece, hsize⟩ := h.sliceString?
  rw [hpiece, Option.getD_some, hsize]

/-- A boundary at or after a span's end, in a text, bounds the span from above. -/
theorem stop_le_byteSize (h : sp.Within t lo hi) : sp.stop ≤ Text.byteSize t := by
  obtain ⟨pre, suf, rfl, hpre⟩ := Text.isBoundary_iff.1 h.stop_boundary
  rw [Text.byteSize_append]
  omega

end Span.Within

end ShaderLink
