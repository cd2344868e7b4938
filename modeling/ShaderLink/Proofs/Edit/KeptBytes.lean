import ShaderLink.Proofs.Edit.ConditionalLines

/-!
# The bytes that conditions keep

Offsets count UTF-8 bytes, so what a source map promises is said of the bytes of its texts: a
byte of the conditioned text goes back to an offset of the input that holds the same byte.
`Text.bytes` is the byte view of a character list, the bytes that `String.toByteArray` holds
(`Text.toByteArray_getElem?`).

The kept text is the kept lines put together, and `keptOffsets` says where each of its bytes
stood; so reading the input at the kept offsets gives the kept text, byte for byte
(`map_read_keptOffsets`). The conditioned map copies each run of kept lines with one entry, a
copy whose spans run forwards (`SourceMap.ForwardCopies`): the run it copies is the text between
two character boundaries, as many bytes long as the text it writes. With the tiling of
`applyConditions_eq`, that is what merging another map into it needs.
-/

namespace ShaderLink

namespace Text

/-- The UTF-8 bytes of a text. -/
def bytes (cs : List Char) : List UInt8 := cs.flatMap String.utf8EncodeChar

@[simp] theorem bytes_append (as bs : List Char) : bytes (as ++ bs) = bytes as ++ bytes bs :=
  List.flatMap_append

/-- A text has as many bytes as its byte size says. -/
theorem length_bytes (cs : List Char) : (bytes cs).length = byteSize cs := by
  induction cs with
  | nil => rfl
  | cons c cs ih =>
    rw [bytes, List.flatMap_cons, List.length_append, String.length_utf8EncodeChar, ← bytes, ih,
      byteSize_cons]

theorem list_toByteArray_getElem? (l : List UInt8) (p : Nat) : l.toByteArray[p]? = l[p]? := by
  simp [getElem?_def, ByteArray.getElem_eq_getElem_data, List.data_toByteArray]

/-- The bytes of a string are the bytes of its characters. -/
theorem toByteArray_getElem? (s : String) (p : Nat) :
    s.toByteArray[p]? = (bytes s.toList)[p]? := by
  rw [← String.utf8Encode_toList, List.utf8Encode, list_toByteArray_getElem?]
  rfl

/-- Reading a text at the offsets of one of its parts gives that part. -/
theorem map_read_range' (pre mid post : List Char) :
    (List.range' (byteSize pre) (byteSize mid)).map (fun o => (bytes (pre ++ mid ++ post))[o]?) =
      (bytes mid).map some := by
  apply List.ext_getElem
  · simp [length_bytes]
  · intro i hi _
    have hi' : i < (bytes mid).length := by simpa [length_bytes] using hi
    simp only [List.getElem_map, List.getElem_range', Nat.one_mul, bytes_append, ← length_bytes]
    rw [List.getElem?_append_left (by simp; omega), List.getElem?_append_right (by omega),
      Nat.add_sub_cancel_left, List.getElem?_eq_getElem hi']

end Text

open ScannedLine

/-- **Reading at the kept offsets.** For lines scanned from the offset where they stand in a
text, the text read at the offsets of the kept bytes is the kept text. By induction on the
lines, each kept line being a part of the text at its own offset. -/
theorem map_read_keptOffsets (conds : Conditions) : ∀ (ls : List (List Char)) (offset : Nat)
    (opens : List (Bool × Nat)) (pre post : List Char), Text.byteSize pre = offset →
    (keptOffsets (conds.scanLines ls offset opens)).map
        (fun o => (Text.bytes (pre ++ ls.flatten ++ post))[o]?) =
      (Text.bytes (keptText (conds.scanLines ls offset opens))).map some
  | [], _, _, _, _, _ => rfl
  | l :: ls, offset, opens, pre, post, hpre => by
    have ih := map_read_keptOffsets conds ls (offset + Text.byteSize l)
      (conds.opensAfter opens offset (LineDirective.read? l)) (pre ++ l) post
      (by rw [Text.byteSize_append, hpre])
    rw [List.append_assoc (pre ++ l)] at ih
    have htext : pre ++ (l :: ls).flatten ++ post = pre ++ l ++ (ls.flatten ++ post) := by simp
    simp only [Conditions.scanLines, keptOffsets_cons, keptText_cons, List.map_append, htext]
    rw [Text.bytes_append _ (keptText _), List.map_append, ih]
    congr 1
    -- a kept line is the part of the text at its own offset
    split
    · rw [← hpre]
      exact Text.map_read_range' pre l (ls.flatten ++ post)
    · rfl

namespace SourceMap

/-- Every entry of the map is a copy whose spans run forwards. -/
def ForwardCopies (m : SourceMap) : Prop := ∀ e ∈ m.entries, e.isCopy = true ∧ e.Forward

end SourceMap

namespace LineFilter

variable {text id : String} {conds : Conditions}

/-- Copying the open run adds a forward copy, when the run is the text between two character
boundaries: the slice is then exactly as many bytes as the run is long. -/
theorem flush_forwardCopies {f : LineFilter} (hc : f.map.ForwardCopies) {before run rest : List Char}
    (htext : text.toList = before ++ run ++ rest) (hstart : Text.byteSize before = f.runStart)
    (hstop : Text.byteSize (before ++ run) = f.offset) : (f.flush text id).map.ForwardCopies := by
  unfold flush
  split
  · next hlt =>
    have hslice : Text.slice? text.toList f.runStart f.offset = some run := by
      rw [htext, ← hstart, ← hstop, Text.byteSize_append]
      exact Text.slice?_middle before run rest
    have hsize : (String.ofList run).utf8ByteSize = f.offset - f.runStart := by
      rw [Text.utf8ByteSize_ofList, ← hstart, ← hstop, Text.byteSize_append]
      omega
    simp only [hslice, Option.map_some, Option.getD_some]
    intro e he
    rw [← Array.mem_toList_iff, SourceMap.add_entries_toList, List.mem_append,
      List.mem_singleton] at he
    rcases he with he | rfl
    · exact hc e (Array.mem_toList_iff.1 he)
    · -- the new entry copies the run: both spans are the run's length
      refine ⟨(MapEntry.isCopy_iff _).2 ?_, Nat.le_of_lt hlt, Nat.le_add_right _ _⟩
      simp only [hsize]
      omega
  · exact hc

/-- The open run of a walk that tracks its lines lies between two character boundaries of the
text. -/
theorem Tracks.run_bounds {f : LineFilter} {seen : List ScannedLine} {done rest : List Char}
    {opens : List (Bool × Nat)} (h : Tracks text id f seen done opens)
    (htext : text.toList = done ++ rest) :
    ∃ before run, text.toList = before ++ run ++ rest ∧ Text.byteSize before = f.runStart ∧
      Text.byteSize (before ++ run) = f.offset := by
  obtain ⟨before, run, -, hdone, hbefore, -, -, -⟩ := h.copies.run
  exact ⟨before, run, by rw [htext, hdone], hbefore, by rw [← hdone, h.offset_eq]⟩

/-- **The step lemma.** One line keeps every entry of the map a forward copy. -/
theorem Tracks.step_forwardCopies {f : LineFilter} {seen : List ScannedLine} {done : List Char}
    {opens : List (Bool × Nat)} (h : Tracks text id f seen done opens) {line rest : List Char}
    (htext : text.toList = done ++ line ++ rest) (hc : f.map.ForwardCopies) :
    (f.step conds text id line).map.ForwardCopies := by
  obtain ⟨before, run, hsplit, hstart, hstop⟩ :=
    h.run_bounds (show text.toList = done ++ (line ++ rest) by rw [htext, List.append_assoc])
  rw [step_eq]
  split
  · exact hc
  · rw [drop_eq]
    exact flush_forwardCopies hc hsplit hstart hstop

/-- **The run lemma.** By induction on the lines, with `Tracks.step` carrying the invariant
the step lemma needs. -/
theorem Tracks.foldl_forwardCopies : ∀ (ls : List (List Char)) {f : LineFilter}
    {seen : List ScannedLine} {done : List Char} {opens : List (Bool × Nat)} {rest : List Char},
    Tracks text id f seen done opens → text.toList = done ++ ls.flatten ++ rest →
      f.map.ForwardCopies → (ls.foldl (LineFilter.step conds text id) f).map.ForwardCopies
  | [], _, _, _, _, _, _, _, hc => hc
  | line :: ls, f, seen, done, opens, rest, h, htext, hc => by
    have htext' : text.toList = done ++ line ++ (ls.flatten ++ rest) := by rw [htext]; simp
    rw [List.foldl_cons]
    exact @Tracks.foldl_forwardCopies ls _ _ _ _ rest
      (@Tracks.step text id conds _ _ _ _ h line _ htext') (by rw [htext]; simp)
      (h.step_forwardCopies htext' hc)

end LineFilter

open LineFilter

/-- The conditioned map copies each run of kept lines forwards, byte for byte. -/
theorem applyConditions_forwardCopies (text id : String) (conds : Conditions) :
    (applyConditions text id conds).map.ForwardCopies := by
  have hstart : Tracks text id ⟨[], SourceMap.empty (conditionedId id), [], 0, 0⟩ [] [] [] :=
    ⟨rfl, rfl, rfl, Copies.empty id⟩
  have htext : text.toList = [] ++ (Text.linesWithBreaks text.toList).flatten ++ [] := by
    simp [Text.flatten_linesWithBreaks]
  have hwalk := @Tracks.foldl text id conds _ _ _ _ _ [] hstart htext
  have hcopies := @Tracks.foldl_forwardCopies text id conds _ _ _ _ _ _ hstart htext
    (fun e he => absurd he (by simp [SourceMap.empty]))
  simp only [List.nil_append] at hwalk
  obtain ⟨before, run, hsplit, hstart', hstop⟩ := hwalk.run_bounds
    (show text.toList = (Text.linesWithBreaks text.toList).flatten ++ [] by
      simp [Text.flatten_linesWithBreaks])
  exact flush_forwardCopies hcopies hsplit hstart' hstop

/-- **Kept bytes.** Each byte of the conditioned text is the byte of the input at its kept
offset, which lies inside the input. -/
theorem applyConditions_getElem? (text id : String) (conds : Conditions) {p o : Nat}
    (h : (keptOffsets (conds.scanLines (Text.linesWithBreaks text.toList) 0 []))[p]? = some o) :
    o < text.utf8ByteSize ∧
      (applyConditions text id conds).map.dest.toByteArray[p]? = text.toByteArray[o]? := by
  have hmem : o ∈ keptOffsets (conds.scanLines (Text.linesWithBreaks text.toList) 0 []) :=
    List.mem_of_getElem? h
  have hbound := ((keptOffsets_scanLines conds _ 0 []).1 o hmem).2
  rw [Text.flatten_linesWithBreaks, Text.byteSize_toList, Nat.zero_add] at hbound
  refine ⟨hbound, ?_⟩
  have hread := congrArg (·[p]?) (map_read_keptOffsets conds (Text.linesWithBreaks text.toList) 0 []
    [] [] rfl)
  simp only [List.nil_append, List.append_nil, Text.flatten_linesWithBreaks, List.getElem?_map,
    h, Option.map_some] at hread
  rw [Text.toByteArray_getElem?, Text.toByteArray_getElem?, (applyConditions_eq text id conds).1.dest_eq]
  -- the kept text has a byte at `p`, as the offsets do
  rcases hb : (Text.bytes (keptText (conds.scanLines (Text.linesWithBreaks text.toList) 0 [])))[p]?
    with _ | b
  · rw [hb] at hread
    cases hread
  · rw [hb, Option.map_some] at hread
    exact (Option.some.inj hread).symm

end ShaderLink
