import ShaderLink.Edit.Conditional
import ShaderLink.Proofs.SourceMap.Lookup
import ShaderLink.Proofs.Text.Slicing

/-!
# The lines that conditions keep

`applyConditions` walks a text line by line with a stack of open `#if`s, copying runs of kept
lines into a map. This module says what the walk computes in terms of the lines alone
(`applyConditions_eq`).

* **The lines in context.** `Conditions.scanLines` pairs each line with the offset where it
  starts and the `#if`s open at it. An `#if` opens one, taken when its condition holds
  (negated by `!`); an `#else` flips the innermost; an `#endif` closes it; an `#else` or
  `#endif` with none open changes nothing (`Conditions.opensAfter`). A line is kept when it is
  no directive and every `#if` open at it is in its taken branch (`ScannedLine.kept`).
* **What comes out.** The text is the kept lines in order (`ScannedLine.keptText`); the
  warnings are those of the unmatched `#else` and `#endif` lines in order, then one for each
  `#if` still open at the end, in the order they were opened.
* **The map.** It copies every byte of the kept text from its own offset in the input
  (`ScannedLine.keptOffsets`, `MapsKept`), so its lookups send each output byte back to where
  it stood, strictly increasing along the output (`MapsKept.destToSrc?_lt`).

The walk keeps the current run of kept lines open and copies it to the map when it drops a
line or reaches the end. `LineFilter.Tracks` is the invariant after each line: the stack, the
warnings, and a map that copies the kept text up to the open run (`LineFilter.Copies`). One
step keeps it (`LineFilter.Tracks.step`), and by induction on the lines so does the whole walk
(`LineFilter.Tracks.foldl`).
-/

namespace ShaderLink

namespace Text

theorem flatten_linesFrom (cs acc : List Char) : (linesFrom cs acc).flatten = acc.reverse ++ cs := by
  fun_induction linesFrom cs acc with
  | case1 => rfl
  | case2 acc _ => simp
  | case3 r acc ih => simp [ih]
  | case4 c r acc _ ih => simp [ih]

/-- The lines of a text, put back together, are the text. -/
theorem flatten_linesWithBreaks (cs : List Char) : (linesWithBreaks cs).flatten = cs := by
  simp [linesWithBreaks, flatten_linesFrom]

end Text

/-! ### Lines in context -/

/-- A line as the line filter meets it: the offset where it starts, its characters, and the
`#if`s open at it, innermost first, each with whether its current branch is taken and the
offset of its line. -/
structure ScannedLine where
  offset : Nat
  chars : List Char
  opens : List (Bool × Nat)
deriving DecidableEq, Repr

namespace Conditions

/-- The `#if`s open after a line read as `d` at `offset`: an `#if` opens one, taken when its
condition, negated by `!`, holds; an `#else` flips the innermost and an `#endif` closes it,
both changing nothing when none is open; any other line changes nothing. -/
def opensAfter (conds : Conditions) (opens : List (Bool × Nat)) (offset : Nat) :
    Option LineDirective → List (Bool × Nat)
  | some (.ifSet name negated) => (conds.holds name != negated, offset) :: opens
  | some .otherwise =>
    match opens with
    | (taken, start) :: rest => (!taken, start) :: rest
    | [] => []
  | some .endIf => opens.tail
  | none => opens

/-- Lines from byte `offset` on, each with where it starts and the `#if`s open at it, with
`opens` open before the first. -/
def scanLines (conds : Conditions) : List (List Char) → Nat → List (Bool × Nat) → List ScannedLine
  | [], _, _ => []
  | l :: ls, offset, opens => ⟨offset, l, opens⟩ ::
    conds.scanLines ls (offset + Text.byteSize l) (conds.opensAfter opens offset (LineDirective.read? l))

/-- The `#if`s still open after the lines. -/
def openAtEnd (conds : Conditions) : List (List Char) → Nat → List (Bool × Nat) → List (Bool × Nat)
  | [], _, opens => opens
  | l :: ls, offset, opens =>
    conds.openAtEnd ls (offset + Text.byteSize l) (conds.opensAfter opens offset (LineDirective.read? l))

variable (conds : Conditions)

/-- Scanning lines one part after another: the second part starts where the first ends, with
the `#if`s open after it. -/
theorem scanLines_append (ls ms : List (List Char)) (offset : Nat) (opens : List (Bool × Nat)) :
    conds.scanLines (ls ++ ms) offset opens = conds.scanLines ls offset opens ++
      conds.scanLines ms (offset + Text.byteSize ls.flatten) (conds.openAtEnd ls offset opens) := by
  induction ls generalizing offset opens with
  | nil => simp [scanLines, openAtEnd]
  | cons l ls ih => simp [scanLines, openAtEnd, ih, Text.byteSize_append, Nat.add_assoc]

theorem openAtEnd_append (ls ms : List (List Char)) (offset : Nat) (opens : List (Bool × Nat)) :
    conds.openAtEnd (ls ++ ms) offset opens =
      conds.openAtEnd ms (offset + Text.byteSize ls.flatten) (conds.openAtEnd ls offset opens) := by
  induction ls generalizing offset opens with
  | nil => simp [openAtEnd]
  | cons l ls ih => simp [openAtEnd, ih, Text.byteSize_append, Nat.add_assoc]

/-- Each scanned line is the text at its offset: the lines before it put together are as long
as it is far from the start. -/
theorem exists_of_mem_scanLines : ∀ {ls : List (List Char)} {offset : Nat} {opens : List (Bool × Nat)}
    {l : ScannedLine}, l ∈ conds.scanLines ls offset opens →
      ∃ before after, ls.flatten = before ++ l.chars ++ after ∧ l.offset = offset + Text.byteSize before
  | [], _, _, _, hl => absurd hl List.not_mem_nil
  | m :: ms, offset, opens, l, hl => by
    rcases List.mem_cons.1 hl with rfl | hl
    · exact ⟨[], ms.flatten, by simp, by simp⟩
    · obtain ⟨before, after, hflat, hoff⟩ := exists_of_mem_scanLines hl
      refine ⟨m ++ before, after, by simp [hflat], ?_⟩
      rw [hoff, Text.byteSize_append, Nat.add_assoc]

/-- Each line of a text, scanned from its start, is the text at the line's offset. -/
theorem slice?_of_mem_scanLines {cs : List Char} {l : ScannedLine}
    (hl : l ∈ conds.scanLines (Text.linesWithBreaks cs) 0 []) :
    Text.slice? cs l.offset (l.offset + Text.byteSize l.chars) = some l.chars := by
  obtain ⟨before, after, hflat, hoff⟩ := conds.exists_of_mem_scanLines hl
  rw [Text.flatten_linesWithBreaks] at hflat
  rw [hoff, Nat.zero_add, hflat]
  exact Text.slice?_middle before l.chars after

end Conditions

namespace ScannedLine

/-- A line is kept when it is no directive and every `#if` open at it is in its taken
branch. -/
def kept (l : ScannedLine) : Bool := (LineDirective.read? l.chars).isNone && l.opens.all (·.1)

/-- The warning of an `#else` or `#endif` line at which no `#if` is open. -/
def unmatched? (id text : String) (l : ScannedLine) : Option Warning :=
  match LineDirective.read? l.chars, l.opens with
  | some .otherwise, [] => some (Warning.at id text l.offset "#else without #if")
  | some .endIf, [] => some (Warning.at id text l.offset "#endif without #if")
  | _, _ => none

/-- The kept lines, put together. -/
def keptText (ls : List ScannedLine) : List Char := (ls.filter kept).flatMap chars

/-- The offset in the input of each byte of the kept lines, in order. -/
def keptOffsets (ls : List ScannedLine) : List Nat :=
  (ls.filter kept).flatMap fun l => List.range' l.offset (Text.byteSize l.chars)

@[simp] theorem keptText_nil : keptText [] = [] := rfl

@[simp] theorem keptText_append (ls ms : List ScannedLine) :
    keptText (ls ++ ms) = keptText ls ++ keptText ms := by
  simp [keptText]

@[simp] theorem keptText_cons (l : ScannedLine) (ls : List ScannedLine) :
    keptText (l :: ls) = (if l.kept then l.chars else []) ++ keptText ls := by
  by_cases h : l.kept <;> simp [keptText, h]

@[simp] theorem keptOffsets_nil : keptOffsets [] = [] := rfl

@[simp] theorem keptOffsets_append (ls ms : List ScannedLine) :
    keptOffsets (ls ++ ms) = keptOffsets ls ++ keptOffsets ms := by
  simp [keptOffsets]

@[simp] theorem keptOffsets_cons (l : ScannedLine) (ls : List ScannedLine) :
    keptOffsets (l :: ls) =
      (if l.kept then List.range' l.offset (Text.byteSize l.chars) else []) ++ keptOffsets ls := by
  by_cases h : l.kept <;> simp [keptOffsets, h]

/-- There is one offset for each byte of the kept text. -/
theorem length_keptOffsets (ls : List ScannedLine) :
    (keptOffsets ls).length = Text.byteSize (keptText ls) := by
  induction ls with
  | nil => rfl
  | cons l ls ih =>
    by_cases h : l.kept <;> simp [h, ih, Text.byteSize_append]

theorem unmatched?_of_read?_eq_none {l : ScannedLine} (id text : String)
    (h : LineDirective.read? l.chars = none) : l.unmatched? id text = none := by
  simp [unmatched?, h]

theorem read?_of_kept {l : ScannedLine} (h : l.kept = true) : LineDirective.read? l.chars = none := by
  simp only [kept, Bool.and_eq_true, Option.isNone_iff_eq_none] at h
  exact h.1

end ScannedLine

open ScannedLine

/-- Offsets of the kept bytes of lines scanned from `offset` lie between `offset` and the end
of the lines, and strictly increase. -/
theorem keptOffsets_scanLines (conds : Conditions) : ∀ (ls : List (List Char)) (offset : Nat)
    (opens : List (Bool × Nat)),
    (∀ x ∈ keptOffsets (conds.scanLines ls offset opens), offset ≤ x ∧ x < offset + Text.byteSize ls.flatten) ∧
      (keptOffsets (conds.scanLines ls offset opens)).Pairwise (· < ·)
  | [], _, _ => by simp [Conditions.scanLines]
  | l :: ls, offset, opens => by
    obtain ⟨hbounds, hpair⟩ := keptOffsets_scanLines conds ls (offset + Text.byteSize l)
      (conds.opensAfter opens offset (LineDirective.read? l))
    -- the offsets of the first line come before all of the rest
    have hfirst : ∀ x ∈ (if (⟨offset, l, opens⟩ : ScannedLine).kept then
        List.range' offset (Text.byteSize l) else []), offset ≤ x ∧ x < offset + Text.byteSize l := by
      split
      · intro x hx
        obtain ⟨i, hi, rfl⟩ := List.mem_range'.1 hx
        omega
      · simp
    simp only [Conditions.scanLines, keptOffsets_cons, List.flatten_cons, Text.byteSize_append]
    refine ⟨fun x hx => ?_, List.pairwise_append.2 ⟨?_, hpair, fun x hx y hy => ?_⟩⟩
    · rcases List.mem_append.1 hx with hx | hx
      · have := hfirst x hx
        omega
      · have := hbounds x hx
        omega
    · split
      · exact List.pairwise_lt_range'
      · exact List.Pairwise.nil
    · have := hfirst x hx
      have := hbounds y hy
      omega

/-! ### One line of the walk -/

namespace LineFilter

variable {text id : String} {conds : Conditions}

/-- Flushing changes the map alone. -/
theorem flush_eq_with_map (f : LineFilter) : f.flush text id = { f with map := (f.flush text id).map } := by
  unfold flush
  split <;> rfl

@[simp] theorem flush_offset (f : LineFilter) : (f.flush text id).offset = f.offset := by
  rw [flush_eq_with_map]

@[simp] theorem flush_runStart (f : LineFilter) : (f.flush text id).runStart = f.runStart := by
  rw [flush_eq_with_map]

@[simp] theorem flush_open_ (f : LineFilter) : (f.flush text id).open_ = f.open_ := by
  rw [flush_eq_with_map]

@[simp] theorem flush_warnings (f : LineFilter) : (f.flush text id).warnings = f.warnings := by
  rw [flush_eq_with_map]

theorem drop_eq (f : LineFilter) (len : Nat) :
    drop text id f len = { f.flush text id with offset := f.offset + len, runStart := f.offset + len } := by
  simp [drop]

/-- **One line.** A kept line extends the current run; any other line updates the open `#if`s
as its directive says, adds the warning of an unmatched `#else` or `#endif`, and is dropped. -/
theorem step_eq (f : LineFilter) (line : List Char) :
    step conds text id f line =
      if (⟨f.offset, line, f.open_⟩ : ScannedLine).kept then
        { f with offset := f.offset + Text.byteSize line }
      else drop text id { f with
          open_ := conds.opensAfter f.open_ f.offset (LineDirective.read? line)
          warnings := f.warnings ++ ((⟨f.offset, line, f.open_⟩ : ScannedLine).unmatched? id text).toList }
        (Text.byteSize line) := by
  obtain ⟨opens, map, warnings, offset, runStart⟩ := f
  cases h : LineDirective.read? line with
  | none =>
    by_cases hall : opens.all (·.1) = true <;>
      simp [step, h, kept, unmatched?, Conditions.opensAfter, hall]
  | some d =>
    cases d with
    | ifSet name negated => simp [step, h, kept, unmatched?, Conditions.opensAfter]
    | otherwise => cases opens <;> simp [step, h, kept, unmatched?, Conditions.opensAfter]
    | endIf => cases opens <;> simp [step, h, kept, unmatched?, Conditions.opensAfter]

/-! ### The map of the walk -/

/-- `Copies id m start seen done`: the map `m` copies the kept text of the lines `seen`, whose
characters are `done`, up to the run of kept lines that starts at byte `start` and runs to the
end of `done`. -/
structure Copies (id : String) (m : SourceMap) (start : Nat) (seen : List ScannedLine)
    (done : List Char) : Prop where
  id_eq : m.id = conditionedId id
  /-- The open run is the rest of the kept text, and its bytes come from `start` on. -/
  run : ∃ before run offs, done = before ++ run ∧ Text.byteSize before = start ∧
    keptText seen = m.dest.toList ++ run ∧
    keptOffsets seen = offs ++ List.range' start (Text.byteSize run) ∧ offs.length = m.destSize
  tiles : Tiles m.entries.toList 0 m.destSize
  /-- Each entry sends a byte to the offset the kept text has for it. -/
  agrees : Agrees m.entries.toList fun p x => x.src = id ∧ (keptOffsets seen)[p]? = some x.offset

/-- The map copies the kept text of the lines `seen`, each byte from its own offset. -/
structure MapsKept (id : String) (m : SourceMap) (seen : List ScannedLine) : Prop where
  id_eq : m.id = conditionedId id
  dest_eq : m.dest.toList = keptText seen
  tiles : Tiles m.entries.toList 0 m.destSize
  agrees : Agrees m.entries.toList fun p x => x.src = id ∧ (keptOffsets seen)[p]? = some x.offset

namespace MapsKept

variable {m : SourceMap} {seen : List ScannedLine}

theorem destSize_eq (h : MapsKept id m seen) : m.destSize = (keptOffsets seen).length := by
  rw [length_keptOffsets, ← h.dest_eq, Text.byteSize_toList]
  rfl

/-- The map passes the coverage check. -/
theorem checkCoverage (h : MapsKept id m seen) : m.checkCoverage = none :=
  SourceMap.checkCoverage_of_tiles h.tiles

/-- Each byte of the kept text goes back to its own offset. -/
theorem destToSrc? (h : MapsKept id m seen) {p o : Nat} (hp : (keptOffsets seen)[p]? = some o) :
    m.destToSrc? p = some ⟨id, o⟩ := by
  have hlt : p < m.destSize := by
    rw [h.destSize_eq]
    exact (List.getElem?_eq_some_iff.1 hp).1
  obtain ⟨e, he, hcov⟩ := h.tiles.exists_covers (Nat.zero_le p) hlt
  obtain ⟨hsrc, hoff⟩ := h.agrees e he p hcov
  rw [SourceMap.destToSrc?_of_covers h.tiles (Array.mem_toList_iff.1 he) hcov]
  rw [hp, Option.some.injEq] at hoff
  rw [hoff, ← hsrc]

/-- The bytes of a kept line go back to the line's own bytes. -/
theorem destToSrc?_line (h : MapsKept id m seen) {pre post : List ScannedLine} {l : ScannedLine}
    (hsplit : seen = pre ++ l :: post) (hk : l.kept = true) {j : Nat} (hj : j < Text.byteSize l.chars) :
    m.destToSrc? (Text.byteSize (keptText pre) + j) = some ⟨id, l.offset + j⟩ := by
  refine h.destToSrc? ?_
  rw [hsplit, keptOffsets_append, keptOffsets_cons, if_pos hk, List.getElem?_append_right
    (by rw [length_keptOffsets]; omega), length_keptOffsets, Nat.add_sub_cancel_left,
    List.getElem?_append_left (by simpa using hj), List.getElem?_range' hj, Nat.one_mul]

/-- Where the kept offsets increase, lookups strictly increase along the kept text. -/
theorem destToSrc?_lt (h : MapsKept id m seen) (hinc : (keptOffsets seen).Pairwise (· < ·))
    {p p' : Nat} {x x' : SourcePosition} (hlt : p < p') (hp' : p' < m.destSize)
    (hx : m.destToSrc? p = some x) (hx' : m.destToSrc? p' = some x') : x.offset < x'.offset := by
  rw [h.destSize_eq] at hp'
  have hp : p < (keptOffsets seen).length := by omega
  rw [h.destToSrc? (List.getElem?_eq_getElem hp), Option.some.injEq] at hx
  rw [h.destToSrc? (List.getElem?_eq_getElem hp'), Option.some.injEq] at hx'
  rw [← hx, ← hx']
  exact List.pairwise_iff_getElem.1 hinc p p' hp hp' hlt

end MapsKept

/-- A map that agrees with some offsets agrees with any longer list of them. -/
theorem agrees_offsets_append {es : List MapEntry} {offs more : List Nat}
    (h : Agrees es fun p x => x.src = id ∧ offs[p]? = some x.offset) :
    Agrees es fun p x => x.src = id ∧ (offs ++ more)[p]? = some x.offset := by
  refine h.mono fun p x ⟨hsrc, hp⟩ => ⟨hsrc, ?_⟩
  rw [List.getElem?_append_left (List.getElem?_eq_some_iff.1 hp).1, hp]

/-- A copy of the bytes `[start, stop)` put right after bytes whose offsets are `offs` sends
each of its bytes to the offset that the run's offsets, after `offs`, have for it. -/
theorem agrees_copy_run (id : String) (offs : List Nat) {start stop n : Nat} (hn : stop - start = n) :
    Agrees [⟨id, ⟨start, stop⟩, ⟨offs.length, offs.length + n⟩⟩]
      fun p x => x.src = id ∧ (offs ++ List.range' start n)[p]? = some x.offset := by
  intro e he p hp
  rw [List.mem_singleton] at he
  subst he
  obtain ⟨hp₁, hp₂⟩ := hp
  dsimp only at hp₁ hp₂
  refine ⟨rfl, ?_⟩
  -- the entry is a copy: the byte `p - offs.length` of the run goes to its own offset
  rw [MapEntry.image_offset, if_pos ((MapEntry.isCopy_iff _).2 (by simp only; omega)),
    List.getElem?_append_right hp₁, List.getElem?_range' (by omega), Nat.one_mul]

theorem Copies.empty (id : String) : Copies id (SourceMap.empty (conditionedId id)) 0 [] [] where
  id_eq := rfl
  run := ⟨[], [], [], rfl, rfl, rfl, rfl, rfl⟩
  tiles := rfl
  agrees := fun _ he => absurd he List.not_mem_nil

/-- A kept line extends the open run. -/
theorem Copies.keep {m : SourceMap} {start : Nat} {seen : List ScannedLine} {done : List Char}
    (h : Copies id m start seen done) {l : ScannedLine} (hk : l.kept = true)
    (ho : l.offset = Text.byteSize done) : Copies id m start (seen ++ [l]) (done ++ l.chars) := by
  obtain ⟨before, run, offs, rfl, hbefore, hkept, hoffs, hlen⟩ := h.run
  refine ⟨h.id_eq, ⟨before, run ++ l.chars, offs, by simp, hbefore, ?_, ?_, hlen⟩, h.tiles, ?_⟩
  · simp [hk, hkept]
  · -- the line's offsets continue the run's
    have hjoin : List.range' start (Text.byteSize run) ++
        List.range' (start + Text.byteSize run) (Text.byteSize l.chars) =
        List.range' start (Text.byteSize (run ++ l.chars)) := by
      simp [Text.byteSize_append]
    rw [keptOffsets_append, hoffs, keptOffsets_cons, if_pos hk, keptOffsets_nil, List.append_nil,
      ho, Text.byteSize_append, hbefore, List.append_assoc, hjoin]
  · rw [keptOffsets_append]
    exact agrees_offsets_append h.agrees

/-- Copying the open run, the map copies all the kept text. -/
theorem Copies.flush {m : SourceMap} {start : Nat} {seen : List ScannedLine} {done rest : List Char}
    (h : Copies id m start seen done) {f : LineFilter} (hmap : f.map = m) (hstart : f.runStart = start)
    (hoffset : f.offset = Text.byteSize done) (htext : text.toList = done ++ rest) :
    MapsKept id (f.flush text id).map seen := by
  subst hmap hstart
  obtain ⟨before, run, offs, rfl, hbefore, hkept, hoffs, hlen⟩ := h.run
  have hsize : Text.byteSize run = f.offset - f.runStart := by
    rw [hoffset, ← hbefore, Text.byteSize_append]
    omega
  unfold LineFilter.flush
  split
  · next hlt =>
    -- the run is a slice of the text, copied from where it starts
    have hslice : Text.slice? text.toList f.runStart f.offset = some run := by
      rw [htext, ← hbefore, hoffset, Text.byteSize_append]
      exact Text.slice?_middle before run rest
    have hrun : (String.ofList run).utf8ByteSize = Text.byteSize run := Text.utf8ByteSize_ofList run
    simp only [hslice, Option.map_some, Option.getD_some]
    refine ⟨h.id_eq, by simp [SourceMap.add, hkept], ?_, ?_⟩
    · rw [SourceMap.add_entries_toList, SourceMap.add_destSize, hrun]
      exact tiles_append.2 ⟨_, h.tiles, tiles_singleton.2 ⟨rfl, Nat.lt_add_of_pos_right (by omega), rfl⟩⟩
    · rw [SourceMap.add_entries_toList, hrun]
      refine agrees_append.2 ⟨h.agrees, ?_⟩
      rw [hoffs, ← hlen]
      exact agrees_copy_run id offs hsize.symm
  · next hge =>
    -- an empty run: the map already copies all the kept text
    have hnil : run = [] := Text.eq_nil_of_byteSize_eq_zero (by omega)
    subst hnil
    refine ⟨h.id_eq, by simp [hkept], h.tiles, ?_⟩
    have hoffs' : keptOffsets seen = offs := by simpa using hoffs
    rw [hoffs']
    exact h.agrees.mono fun p x hx => by simpa [hoffs'] using hx

/-- A dropped line ends the run: the map copies all the kept text, and a new run starts after
the line. -/
theorem MapsKept.copies {m : SourceMap} {seen : List ScannedLine} (h : MapsKept id m seen)
    {l : ScannedLine} (hk : l.kept = false) (done chars : List Char) :
    Copies id m (Text.byteSize done + Text.byteSize chars) (seen ++ [l]) (done ++ chars) := by
  have hkept : keptText (seen ++ [l]) = keptText seen := by simp [hk]
  have hoffs : keptOffsets (seen ++ [l]) = keptOffsets seen := by simp [hk]
  refine ⟨h.id_eq, ⟨done ++ chars, [], keptOffsets seen, by simp, Text.byteSize_append _ _, ?_,
    by simp [hoffs], ?_⟩,
    h.tiles, ?_⟩
  · rw [hkept, h.dest_eq, List.append_nil]
  · exact h.destSize_eq.symm
  · rw [hoffs]
    exact h.agrees

/-! ### The walk -/

/-- `f.Tracks text id seen done opens`: the walk has met the lines `seen`, whose characters are
`done`, and stands at the end of them with the `#if`s `opens` open, their warnings given, and
its map copying the kept text up to the open run. -/
structure Tracks (text id : String) (f : LineFilter) (seen : List ScannedLine) (done : List Char)
    (opens : List (Bool × Nat)) : Prop where
  offset_eq : f.offset = Text.byteSize done
  open_eq : f.open_ = opens
  warnings_eq : f.warnings = seen.filterMap (unmatched? id text)
  copies : Copies id f.map f.runStart seen done

/-- **The step lemma.** One more line keeps the invariant, with the line scanned where the walk
stands. -/
theorem Tracks.step {f : LineFilter} {seen : List ScannedLine} {done : List Char}
    {opens : List (Bool × Nat)} (h : Tracks text id f seen done opens) {line rest : List Char}
    (htext : text.toList = done ++ line ++ rest) :
    Tracks text id (f.step conds text id line) (seen ++ [⟨Text.byteSize done, line, opens⟩])
      (done ++ line) (conds.opensAfter opens (Text.byteSize done) (LineDirective.read? line)) := by
  obtain ⟨hoffset, hopen, hwarnings, hcopies⟩ := h
  rw [step_eq, hoffset, hopen]
  split
  · next hk =>
    -- a kept line is no directive: the open `#if`s and the warnings stay
    have hread := read?_of_kept hk
    refine ⟨by simp [Text.byteSize_append], by simp [hread, Conditions.opensAfter], ?_,
      hcopies.keep hk rfl⟩
    simp [hwarnings, unmatched?_of_read?_eq_none id text hread]
  · next hk =>
    refine ⟨by simp [drop_eq, Text.byteSize_append], by simp [drop_eq], ?_, ?_⟩
    · cases hu : unmatched? id text ⟨Text.byteSize done, line, opens⟩ <;> simp [drop_eq, hwarnings, hu]
    · rw [drop_eq]
      refine (hcopies.flush ?_ ?_ ?_ (by rw [htext, List.append_assoc])).copies
        (Bool.of_not_eq_true hk) done line <;> rfl

/-- **The run lemma.** By induction on the lines: the walk over them keeps the invariant, with
the lines scanned from where it stands. -/
theorem Tracks.foldl : ∀ (ls : List (List Char)) {f : LineFilter} {seen : List ScannedLine}
    {done : List Char} {opens : List (Bool × Nat)} {rest : List Char},
    Tracks text id f seen done opens → text.toList = done ++ ls.flatten ++ rest →
      Tracks text id (ls.foldl (LineFilter.step conds text id) f)
        (seen ++ conds.scanLines ls (Text.byteSize done) opens) (done ++ ls.flatten)
        (conds.openAtEnd ls (Text.byteSize done) opens)
  | [], _, _, _, _, _, h, _ => by simpa [Conditions.scanLines, Conditions.openAtEnd] using h
  | line :: ls, f, seen, done, opens, rest, h, htext => by
    have hstep := @Tracks.step text id conds _ _ _ _ h line (ls.flatten ++ rest) (by rw [htext]; simp)
    have hrun := @Tracks.foldl ls _ _ _ _ rest hstep (by rw [htext]; simp)
    simpa [Conditions.scanLines, Conditions.openAtEnd, Text.byteSize_append] using hrun

end LineFilter

open LineFilter

/-- **What the walk computes.** Applying conditions to a text, the map copies the kept lines
from their own offsets, and the warnings are those of the unmatched `#else` and `#endif` lines
in order, then one for each `#if` never closed, in the order they were opened. -/
theorem applyConditions_eq (text id : String) (conds : Conditions) :
    MapsKept id (applyConditions text id conds).map
        (conds.scanLines (Text.linesWithBreaks text.toList) 0 []) ∧
      (applyConditions text id conds).warnings =
        (conds.scanLines (Text.linesWithBreaks text.toList) 0 []).filterMap (unmatched? id text) ++
          (conds.openAtEnd (Text.linesWithBreaks text.toList) 0 []).reverse.map
            fun o => Warning.at id text o.2 "#if without #endif" := by
  have hstart : Tracks text id ⟨[], SourceMap.empty (conditionedId id), [], 0, 0⟩ [] [] [] :=
    ⟨rfl, rfl, rfl, Copies.empty id⟩
  have hwalk := @Tracks.foldl text id conds (Text.linesWithBreaks text.toList) _ _ _ _ [] hstart
    (by simp [Text.flatten_linesWithBreaks])
  simp only [List.nil_append, Text.byteSize_nil] at hwalk
  obtain ⟨hoffset, hopen, hwarnings, hcopies⟩ := hwalk
  refine ⟨@Copies.flush text id _ _ _ _ [] hcopies _ rfl rfl hoffset
    (by simp [Text.flatten_linesWithBreaks]), ?_⟩
  simp only [applyConditions, flush_warnings, flush_open_, hwarnings, hopen]

end ShaderLink
