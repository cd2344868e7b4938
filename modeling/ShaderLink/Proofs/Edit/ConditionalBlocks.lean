import ShaderLink.Proofs.Edit.ConditionalLines

/-!
# Balanced conditional blocks

Read as a tree, balanced conditional text is a sequence of lines and `#if` blocks; a block is an
`#if` line, branches separated by `#else` lines, and an `#endif` line. The first branch is taken
when the condition holds, and each `#else` turns to the other side. `Conditions.Evaluates`
gives this reading as a relation, with `Conditions.Branches` for the branches of one block: a
line is kept exactly when every block around it has taken the branch it stands in.

The line filter agrees with the tree (`Conditions.Evaluates.scans`): on balanced text every
`#if` it opens it closes, the lines it keeps are those the tree keeps, and it warns of nothing.
The argument is one induction over the tree, each case gluing the scans of its parts
(`Scans.append`).

`applyConditions_keeps_enabled_lines` puts this together with what the walk computes on any
text.
-/

namespace ShaderLink

open ScannedLine

namespace Conditions

mutual

/-- `conds.Evaluates taken ls out`: the lines `ls` are balanced, and read as a tree of `#if`
blocks, inside text that is taken exactly when `taken`, they keep `out`. -/
inductive Evaluates (conds : Conditions) : Bool → List (List Char) → List Char → Prop
  | nil (taken : Bool) : Evaluates conds taken [] []
  | line {taken : Bool} {l : List Char} {ls : List (List Char)} {out : List Char} :
      LineDirective.read? l = none → Evaluates conds taken ls out →
        Evaluates conds taken (l :: ls) ((if taken then l else []) ++ out)
  | block {taken : Bool} {i e : List Char} {name : String} {negated : Bool}
      {body rest : List (List Char)} {out₁ out₂ : List Char} :
      LineDirective.read? i = some (.ifSet name negated) →
      Branches conds taken (conds.holds name != negated) body out₁ →
      LineDirective.read? e = some .endIf → Evaluates conds taken rest out₂ →
        Evaluates conds taken (i :: body ++ e :: rest) (out₁ ++ out₂)

/-- `conds.Branches taken value ls out`: the lines `ls` are the branches of one block,
separated by `#else` lines, the first taken when `value` and each next one when the one before
is not; inside text taken exactly when `taken`, they keep `out`. -/
inductive Branches (conds : Conditions) : Bool → Bool → List (List Char) → List Char → Prop
  | last {taken value : Bool} {body : List (List Char)} {out : List Char} :
      Evaluates conds (taken && value) body out → Branches conds taken value body out
  | next {taken value : Bool} {body more : List (List Char)} {x : List Char}
      {out₁ out₂ : List Char} :
      Evaluates conds (taken && value) body out₁ → LineDirective.read? x = some .otherwise →
      Branches conds taken (!value) more out₂ →
        Branches conds taken value (body ++ x :: more) (out₁ ++ out₂)

end

variable (conds : Conditions) (id text : String)

/-- Scanned from `offset` with the `#if`s `opens` open, the lines `ls` keep `out`, leave `opens'`
open and warn of nothing. -/
structure Scans (ls : List (List Char)) (offset : Nat) (opens : List (Bool × Nat)) (out : List Char)
    (opens' : List (Bool × Nat)) : Prop where
  kept_eq : keptText (conds.scanLines ls offset opens) = out
  openAtEnd_eq : conds.openAtEnd ls offset opens = opens'
  quiet : ∀ l ∈ conds.scanLines ls offset opens, l.unmatched? id text = none

namespace Scans

variable {conds id text}

theorem nil (offset : Nat) (opens : List (Bool × Nat)) : Scans conds id text [] offset opens [] opens :=
  ⟨rfl, rfl, fun _ hl => absurd hl List.not_mem_nil⟩

/-- Scans glue end to end. -/
theorem append {ls ms : List (List Char)} {offset : Nat} {opens mid opens' : List (Bool × Nat)}
    {out₁ out₂ : List Char} (h₁ : Scans conds id text ls offset opens out₁ mid)
    (h₂ : Scans conds id text ms (offset + Text.byteSize ls.flatten) mid out₂ opens') :
    Scans conds id text (ls ++ ms) offset opens (out₁ ++ out₂) opens' := by
  refine ⟨?_, ?_, fun l hl => ?_⟩
  · rw [scanLines_append, keptText_append, h₁.kept_eq, h₁.openAtEnd_eq, h₂.kept_eq]
  · rw [openAtEnd_append, h₁.openAtEnd_eq, h₂.openAtEnd_eq]
  · rw [scanLines_append, List.mem_append, h₁.openAtEnd_eq] at hl
    rcases hl with hl | hl
    · exact h₁.quiet l hl
    · exact h₂.quiet l hl

/-- A line that is no directive is kept exactly when the text around it is taken. -/
theorem line {l : List Char} (hl : LineDirective.read? l = none) {taken : Bool} (offset : Nat)
    {opens : List (Bool × Nat)} (hopens : opens.all (·.1) = taken) :
    Scans conds id text [l] offset opens (if taken then l else []) opens := by
  refine ⟨?_, by simp [openAtEnd, opensAfter, hl], ?_⟩
  · simp [scanLines, kept, hl, hopens]
  · simp [scanLines, unmatched?, hl]

theorem ifLine {i : List Char} {name : String} {negated : Bool}
    (hi : LineDirective.read? i = some (.ifSet name negated)) (offset : Nat) (opens : List (Bool × Nat)) :
    Scans conds id text [i] offset opens [] ((conds.holds name != negated, offset) :: opens) := by
  refine ⟨?_, by simp [openAtEnd, opensAfter, hi], ?_⟩
  · simp [scanLines, kept, hi]
  · simp [scanLines, unmatched?, hi]

theorem elseLine {x : List Char} (hx : LineDirective.read? x = some .otherwise) (offset : Nat)
    (value : Bool) (start : Nat) (opens : List (Bool × Nat)) :
    Scans conds id text [x] offset ((value, start) :: opens) [] ((!value, start) :: opens) := by
  refine ⟨?_, by simp [openAtEnd, opensAfter, hx], ?_⟩
  · simp [scanLines, kept, hx]
  · simp [scanLines, unmatched?, hx]

theorem endLine {e : List Char} (he : LineDirective.read? e = some .endIf) (offset : Nat)
    (value : Bool) (start : Nat) (opens : List (Bool × Nat)) :
    Scans conds id text [e] offset ((value, start) :: opens) [] opens := by
  refine ⟨?_, by simp [openAtEnd, opensAfter, he], ?_⟩
  · simp [scanLines, kept, he]
  · simp [scanLines, unmatched?, he]

end Scans

variable {conds id text}

mutual

/-- **The filter reads balanced text as the tree does.** Inside text taken exactly when every
`#if` open around it is in its taken branch, balanced lines keep what the tree keeps, close
what they open and warn of nothing. -/
theorem Evaluates.scans : ∀ {taken : Bool} {ls : List (List Char)} {out : List Char},
    conds.Evaluates taken ls out → ∀ (offset : Nat) (opens : List (Bool × Nat)),
      opens.all (·.1) = taken → Scans conds id text ls offset opens out opens
  | _, _, _, .nil _, o, opens, _ => Scans.nil o opens
  | _, _, _, .line hl h, o, _, hopens => (Scans.line hl o hopens).append (h.scans _ _ hopens)
  | _, _, _, .block hi hb he h, o, opens, hopens => by
    -- the `#if` opens the block, its branches leave it open, and the `#endif` closes it
    obtain ⟨v, hbranches⟩ := hb.scans (o + Text.byteSize [_].flatten) o opens hopens
    exact (Scans.ifLine hi o opens).append
      (hbranches.append ((Scans.endLine he _ v o opens).append (h.scans _ _ hopens)))

/-- The branches of a block, with the block's `#if` open, leave it open with its current branch
flipped once for each `#else`. -/
theorem Branches.scans : ∀ {taken value : Bool} {ls : List (List Char)} {out : List Char},
    conds.Branches taken value ls out → ∀ (offset start : Nat) (opens : List (Bool × Nat)),
      opens.all (·.1) = taken →
        ∃ v, Scans conds id text ls offset ((value, start) :: opens) out ((v, start) :: opens)
  | _, value, _, _, .last h, o, start, opens, hopens =>
    ⟨value, h.scans o _ (by simp [hopens, Bool.and_comm])⟩
  | _, value, _, _, .next h hx hb, o, start, opens, hopens => by
    obtain ⟨v, hmore⟩ := hb.scans _ start opens hopens
    exact ⟨v, (h.scans o _ (by simp [hopens, Bool.and_comm])).append
      ((Scans.elseLine hx _ value start opens).append hmore)⟩

end

end Conditions

/-- **Conditional lines.** Applying conditions to a text keeps, in order, exactly the lines that
are no directive and at which every open `#if` is in its taken branch, and reports each
unmatched `#else` and `#endif` at its line, then each `#if` never closed, in the order they were
opened. Its map, named `id#conditioned`, passes the coverage check and sends each byte of a
kept line back to the same byte of the input, strictly increasing along the output. On balanced
text the result is what the tree of `#if` blocks keeps, with no warnings. -/
theorem applyConditions_keeps_enabled_lines (text id : String) (conds : Conditions) :
    let lines := conds.scanLines (Text.linesWithBreaks text.toList) 0 []
    let r := applyConditions text id conds
    r.map.dest = String.ofList (keptText lines) ∧
      r.warnings = lines.filterMap (unmatched? id text) ++
        (conds.openAtEnd (Text.linesWithBreaks text.toList) 0 []).reverse.map
          (fun o => Warning.at id text o.2 "#if without #endif") ∧
      r.map.id = conditionedId id ∧ r.map.checkCoverage = none ∧
      (∀ l ∈ lines, Text.slice? text.toList l.offset (l.offset + Text.byteSize l.chars) = some l.chars) ∧
      (∀ pre l post, lines = pre ++ l :: post → l.kept = true → ∀ j < Text.byteSize l.chars,
        r.map.destToSrc? (Text.byteSize (keptText pre) + j) = some ⟨id, l.offset + j⟩) ∧
      (∀ p p' x x', p < p' → p' < r.map.destSize → r.map.destToSrc? p = some x →
        r.map.destToSrc? p' = some x' → x.offset < x'.offset) ∧
      ∀ out, conds.Evaluates true (Text.linesWithBreaks text.toList) out →
        r.map.dest = String.ofList out ∧ r.warnings = [] := by
  intro lines r
  obtain ⟨hmaps, hwarnings⟩ := applyConditions_eq text id conds
  have hdest : r.map.dest = String.ofList (keptText lines) := by
    rw [← hmaps.dest_eq, String.ofList_toList]
  refine ⟨hdest, hwarnings, hmaps.id_eq, hmaps.checkCoverage,
    fun l hl => conds.slice?_of_mem_scanLines hl,
    fun pre l post hsplit hk j hj => hmaps.destToSrc?_line hsplit hk hj,
    fun p p' x x' hlt hp' hx hx' =>
      hmaps.destToSrc?_lt (keptOffsets_scanLines conds _ 0 []).2 hlt hp' hx hx',
    fun out hout => ?_⟩
  -- on balanced text the scan keeps what the tree keeps, closes every `#if` and warns of nothing
  have hscan := @Conditions.Evaluates.scans conds id text _ _ _ hout 0 [] rfl
  refine ⟨by rw [hdest, hscan.kept_eq], ?_⟩
  rw [hwarnings, hscan.openAtEnd_eq, List.filterMap_eq_nil_iff.2 hscan.quiet]
  rfl

/-- A block with an `#else`, then a line after it: with its condition set, the first branch and
the line after the block are kept, and nothing is reported. -/
theorem applyConditions_takes_first_branch :
    Conditions.Evaluates ⟨[("A", true)]⟩ true
        (Text.linesWithBreaks "#if A\na\n#else\nb\n#endif\nc\n".toList) "a\nc\n".toList ∧
      (applyConditions "#if A\na\n#else\nb\n#endif\nc\n" "m" ⟨[("A", true)]⟩).map.dest = "a\nc\n" ∧
      (applyConditions "#if A\na\n#else\nb\n#endif\nc\n" "m" ⟨[("A", true)]⟩).warnings = [] := by
  have hlines : Text.linesWithBreaks "#if A\na\n#else\nb\n#endif\nc\n".toList =
      "#if A\n".toList :: (["a\n".toList] ++ "#else\n".toList :: ["b\n".toList]) ++
        "#endif\n".toList :: ["c\n".toList] := by
    decide
  have hif : LineDirective.read? "#if A\n".toList = some (.ifSet "A" false) := by decide
  have helse : LineDirective.read? "#else\n".toList = some .otherwise := by decide
  have hend : LineDirective.read? "#endif\n".toList = some .endIf := by decide
  have hkeep : Conditions.Evaluates ⟨[("A", true)]⟩ true
      (Text.linesWithBreaks "#if A\na\n#else\nb\n#endif\nc\n".toList) "a\nc\n".toList := by
    rw [hlines]
    exact .block hif (.next (.line (by decide) (.nil _)) helse (.last (.line (by decide) (.nil _)))) hend
      (.line (by decide) (.nil _))
  obtain ⟨-, -, -, -, -, -, -, hbalanced⟩ :=
    applyConditions_keeps_enabled_lines "#if A\na\n#else\nb\n#endif\nc\n" "m" ⟨[("A", true)]⟩
  obtain ⟨hdest, hwarnings⟩ := hbalanced _ hkeep
  exact ⟨hkeep, hdest.trans (by decide), hwarnings⟩

end ShaderLink
