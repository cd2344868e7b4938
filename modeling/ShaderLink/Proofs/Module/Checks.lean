import ShaderLink.Proofs.Parse.Progress
import ShaderLink.Proofs.Module.Layout
import ShaderLink.Proofs.Edit.ConditionalLines

/-!
# Parsing passes its own checks

Reading a module takes slices of its text at byte offsets, builds spans from pairs of
positions, repeats rules until they decline, and reports a failure at a byte offset of the
source. Each of these has a condition under which it makes sense: a slice needs its two ends
in order and on character boundaries, a span needs its start before its end and both inside
the text, a repetition needs each round to read something, and a report needs a position that
falls in the text. `ParseChecks` gathers them, and `parse_checks_hold` shows that they hold
for every text, path and set of options:

* the conditions walk the text line by line, and at every line the run of kept lines they hold
  is a slice of the text (`LineFilter.run_sliced`, from the walk's invariant
  `LineFilter.Tracks`);
* every rule the grammar repeats advances (`Grammar.repetitions`);
* every element of a parsed module, and every token of a listing, is a slice of its text
  (`elements_within`, `tokens_within`);
* a failure is reported at a position inside the source, with the line and column of the last
  character boundary at or before it (`ParseReport.locates_ofFailure`, from
  `Text.floorPrefix_spec`).
-/

namespace ShaderLink

namespace Text

/-- **The floor of an offset.** `floorPrefix cs n` is the longest prefix of `cs` of at most `n`
bytes: the character after it, if any, would pass `n`. -/
theorem floorPrefix_spec : ∀ (cs : List Char) (n : Nat), ∃ after,
    cs = floorPrefix cs n ++ after ∧ byteSize (floorPrefix cs n) ≤ n ∧
      ∀ c more, after = c :: more → n < byteSize (floorPrefix cs n) + c.utf8Size
  | [], n => ⟨[], rfl, Nat.zero_le n, fun _ _ h => nomatch h⟩
  | c :: cs, n => by
    by_cases hc : c.utf8Size ≤ n
    · obtain ⟨after, hcs, hle, hlast⟩ := floorPrefix_spec cs (n - c.utf8Size)
      rw [floorPrefix, if_pos hc]
      refine ⟨after, by rw [List.cons_append, ← hcs], ?_, fun c' more h => ?_⟩
      · rw [byteSize_cons]
        omega
      · have := hlast c' more h
        rw [byteSize_cons]
        omega
    · rw [floorPrefix, if_neg hc]
      refine ⟨c :: cs, rfl, Nat.zero_le n, fun c' more h => ?_⟩
      obtain ⟨rfl, -⟩ := List.cons.inj h
      rw [byteSize_nil]
      omega

end Text

namespace Parser

/-- Values read one after another each lie between the bounds of the whole. -/
theorem Sequence.exists_of_mem {α : Type} {Q : Nat → Nat → α → Prop} {lo hi : Nat}
    {as : List α} (h : Sequence Q lo hi as) :
    ∀ a ∈ as, ∃ l h, lo ≤ l ∧ h ≤ hi ∧ Q l h a := by
  induction h with
  | nil => intro a ha; cases ha
  | @cons lo mid hi a as hle hq hrest ih =>
    intro x hx
    rcases List.mem_cons.1 hx with rfl | hx
    · exact ⟨lo, mid, Nat.le_refl _, hrest.le, hq⟩
    · obtain ⟨l, h, hl, hh, hq'⟩ := ih x hx
      exact ⟨l, h, Nat.le_trans hle hl, hh, hq'⟩

end Parser

namespace LineFilter

/-- The line filter after the lines `ls` of a text named `id`, from where `applyConditions`
starts it: no `#if` open, an empty map and no warnings, at offset zero. -/
def walk (conds : Conditions) (text id : String) (ls : List (List Char)) : LineFilter :=
  ls.foldl (step conds text id) ⟨[], SourceMap.empty (conditionedId id), [], 0, 0⟩

/-- **Every run the conditions copy is a slice.** Wherever the walk stands, the run of kept
lines it holds starts no later, and the bytes between are a slice of the text. -/
theorem run_sliced (conds : Conditions) (text id : String) {ls rest : List (List Char)}
    (h : Text.linesWithBreaks text.toList = ls ++ rest) :
    (walk conds text id ls).runStart ≤ (walk conds text id ls).offset ∧
      ∃ run, Text.slice? text.toList (walk conds text id ls).runStart
        (walk conds text id ls).offset = some run := by
  have hstart : Tracks text id ⟨[], SourceMap.empty (conditionedId id), [], 0, 0⟩ [] [] [] :=
    ⟨rfl, rfl, rfl, Copies.empty id⟩
  have htext : text.toList = [] ++ ls.flatten ++ rest.flatten := by
    rw [← Text.flatten_linesWithBreaks text.toList, h, List.flatten_append, List.nil_append]
  obtain ⟨hoffset, -, -, hcopies⟩ := @Tracks.foldl text id conds ls _ _ _ _ _ hstart htext
  obtain ⟨before, run, -, hdone, hbefore, -⟩ := hcopies.run
  -- the walk stands at the end of the lines read, and its run is their last part
  rw [List.nil_append] at hdone htext hoffset
  rw [hdone] at htext hoffset
  refine ⟨?_, run, ?_⟩
  · rw [walk, hoffset, ← hbefore, Text.byteSize_append]
    omega
  · rw [walk, hoffset, ← hbefore, Text.byteSize_append, htext]
    exact Text.slice?_middle before run rest.flatten

end LineFilter

namespace ParseReport

/-- A report places its failure in `source`: at a position inside it, with the line and
column, counted from one, of the last character boundary at or before that position. -/
structure Locates (source : List Char) (r : ParseReport) : Prop where
  position_le : r.position ≤ Text.byteSize source
  /-- `before` is the text up to that boundary: the character after it would pass the
  position. -/
  boundary : ∃ before after, source = before ++ after ∧ Text.byteSize before ≤ r.position ∧
    (∀ c more, after = c :: more → r.position < Text.byteSize before + c.utf8Size) ∧
    r.line = before.count '\n' + 1 ∧ r.column = (before.reverse.takeWhile (· != '\n')).length + 1

/-- Every report of a failure places it in its source. -/
theorem locates_ofFailure (module source : String) (map : SourceMap) (budget furthest : Nat)
    (f : Failure) : (ofFailure module source map budget furthest f).Locates source.toList := by
  unfold ofFailure
  dsimp only
  obtain ⟨after, hsrc, hle, hlast⟩ := Text.floorPrefix_spec source.toList
    (min (((map.destToSrc? furthest).map (·.offset)).getD furthest) source.utf8ByteSize)
  -- the line and column are counted in the text up to the floor of the position
  refine ⟨?_, _, after, hsrc, hle, hlast, rfl, rfl⟩
  rw [Text.byteSize_toList]
  exact Nat.min_le_right _ _

end ParseReport

/-- Every element of a parsed module is a slice of its text. -/
theorem elements_within {text path : String} {options : ParseOptions} {m : ParsedModule}
    (h : parseModule text path options = .ok m) :
    ∀ e ∈ m.elems.toList, e.span.Within m.text.toList 0 (Text.byteSize m.text.toList) := by
  unfold parseModule at h
  dsimp only at h
  split at h
  · cases h
  · next items c hparse =>
    obtain ⟨hspans, hlaid⟩ := Grammar.topLevel_laid hparse
    have hbuilt := Assembly.build_laid c.notes hspans hlaid
    rcases hb : Assembly.build items c.notes with ⟨a, exportsAll⟩
    rw [hb] at h hbuilt
    cases h
    exact hbuilt.within

/-- Every token of a listing is a slice of the text. -/
theorem tokens_within {text : String} {toks : List Token} (h : tokenize text = .ok toks) :
    ∀ tok ∈ toks, tok.span.Within text.toList 0 (Text.byteSize text.toList) := by
  unfold tokenize at h
  split at h
  · next toks' c hrun =>
    cases h
    obtain ⟨hc, -, hseq⟩ := Parser.reads_many Parser.reads_anyToken (Cursor.aligned_start text) hrun
    intro tok htok
    obtain ⟨lo, hi, -, hhi, hwithin⟩ := hseq.exists_of_mem tok htok
    exact hwithin.mono (Nat.zero_le _) (Nat.le_trans hhi hc.pos_le_byteSize)
  · cases h

/-- What parsing a text and listing its tokens rely on, each time they slice the text, build a
span, repeat a rule or report a failure. -/
structure ParseChecks (text path : String) (options : ParseOptions) : Prop where
  /-- Wherever the conditions' walk over the lines stands, the run of kept lines it holds
  starts no later, and the bytes between are a slice of the text. -/
  runs : ∀ ls rest, Text.linesWithBreaks text.toList = ls ++ rest →
    (LineFilter.walk options.conditions text path ls).runStart ≤
        (LineFilter.walk options.conditions text path ls).offset ∧
      ∃ run, Text.slice? text.toList (LineFilter.walk options.conditions text path ls).runStart
        (LineFilter.walk options.conditions text path ls).offset = some run
  /-- Every rule the grammar repeats reads something each time it succeeds, over any text. -/
  repetitions : ∀ t, Grammar.Repetitions t
  /-- Every element of a parsed module is a slice of its text. -/
  elements : ∀ m, parseModule text path options = .ok m →
    ∀ e ∈ m.elems.toList, e.span.Within m.text.toList 0 (Text.byteSize m.text.toList)
  /-- A failed parse is reported at a place in the source. -/
  report : ∀ r, parseModule text path options = .error r → r.Locates text.toList
  /-- Every token of a listing is a slice of the text. -/
  tokens : ∀ toks, tokenize text = .ok toks →
    ∀ tok ∈ toks, tok.span.Within text.toList 0 (Text.byteSize text.toList)
  /-- A failed listing is reported at a place in the text. -/
  tokenReport : ∀ r, tokenize text = .error r → r.Locates text.toList

/-- **Parsing passes its own checks**, for every text, path and set of options. -/
theorem parse_checks_hold (text path : String) (options : ParseOptions) :
    ParseChecks text path options where
  runs _ _ h := LineFilter.run_sliced options.conditions text path h
  repetitions := Grammar.repetitions
  elements _ h := elements_within h
  report r h := by
    unfold parseModule at h
    dsimp only at h
    split at h
    · cases h
      exact ParseReport.locates_ofFailure _ _ _ _ _ _
    · cases h
  tokens _ h := tokens_within h
  tokenReport r h := by
    unfold tokenize at h
    split at h
    · cases h
    · cases h
      exact ParseReport.locates_ofFailure _ _ _ _ _ _

end ShaderLink
