import ShaderLink.Proofs.Parse.Declarations
import ShaderLink.Parse.Unit
import Mathlib.Data.List.ReduceOption

/-!
# Where the items of a module lie

The grammar of a module reads one top-level item after another. Each item becomes elements of
the module: a `module` line, an import, an `#export` line or a pass-through statement one
element with the item's span; a declaration an element for its `export` keyword, if it has
one, and one for itself (`Item.spans`). This module shows that these spans ascend through the
text, each a slice of it ending before the next starts, and that every declaration is laid out
in its span (`topLevel_laid`).

The directive lines carry no spans of their own beyond the line's, but the line's span
needs their rules to move forward (`ImportMoves`, `moves_modulePath`, `moves_lineEnd`).
-/

namespace ShaderLink

/-- The spans of the elements an item becomes at the top level of a module: a declaration
after the `export` keyword becomes an element for the keyword, ending where the declaration
starts, and one for the declaration. -/
def Item.spans : Item → List Span
  | .moduleLine _ span => [span]
  | .importItem _ _ span => [span]
  | .exportItem _ span => [span]
  | .text span => [span]
  | .decl d => (d.exportKeyword.map fun kw => (⟨kw.start, d.span.start⟩ : Span)).toList ++ [d.span]

/-- An item laid out in `t`: a declaration as `DeclSyntax.Laid` says; the other items hold
nothing inside. -/
def Item.Laid (t : List Char) : Item → Prop
  | .decl d => d.Laid t
  | _ => True

namespace Grammar

open ShaderLink.Parser

variable {t : List Char}

/-! ### Directive lines -/

theorem moves_separator : Moves t separator :=
  reads_orElse (reads_text "/") (reads_orElse (reads_text "::") (reads_text ".")) |>.moves

theorem moves_relativeMarkers : Moves t relativeMarkers :=
  (reads_many (reads_map (reads_kind .relativePrefix))).moves

theorem moves_word : Moves t word := (reads_map (reads_kind .word)).moves

theorem moves_skipLineBreaks : Moves t skipLineBreaks :=
  moves_bind (reads_many (reads_kind .eol)).moves fun _ => moves_pure _

theorem moves_asClause : Moves t asClause :=
  moves_bind (reads_text "as").moves fun _ => reads_commit moves_word

theorem moves_importArgs : Moves t importArgs :=
  moves_bind (reads_text "(").moves fun _ =>
    moves_bind (moves_sepBy (reads_map (reads_orElse (reads_kind .word) (reads_kind .number))).moves
      (reads_text ",").moves) fun _ =>
    moves_bind (reads_commit (reads_text ")")).moves fun _ => moves_pure _

/-- The import rules at one fuel move forward. -/
structure ImportMoves (t : List Char) (fuel : Nat) : Prop where
  tree : Moves t (importTree fuel)
  after : ∀ lead, Moves t (importTreeAfter fuel lead)
  list : Moves t (importList fuel)
  listAfter : ∀ acc, Moves t (importListAfter fuel acc)

theorem ImportMoves.succ {fuel : Nat} (ih : ImportMoves t fuel) : ImportMoves t (fuel + 1) where
  tree := by
    rw [importTree]
    exact moves_bind moves_relativeMarkers ih.after
  after lead := by
    rw [importTreeAfter]
    refine moves_bind (reads_optional (reads_text "\x7b")).moves fun _ => ?_
    split
    · exact moves_bind ih.list fun _ => moves_pure _
    refine moves_bind (reads_optional (reads_text "*")).moves fun _ => ?_
    split
    · exact moves_bind (reads_optional moves_asClause).moves fun _ => moves_pure _
    refine moves_bind (reads_commit moves_word) fun _ => ?_
    refine moves_bind (reads_optional moves_separator).moves fun _ => ?_
    split
    · exact ih.after _
    · exact moves_bind (reads_optional moves_importArgs).moves fun _ =>
        moves_bind (reads_optional moves_asClause).moves fun _ => moves_pure _
  list := by
    rw [importList]
    exact ih.listAfter []
  listAfter acc := by
    rw [importListAfter]
    refine moves_bind moves_skipLineBreaks fun _ => ?_
    refine moves_bind (reads_optional (reads_text "\x7d")).moves fun _ => ?_
    split
    · exact moves_pure _
    refine moves_bind ih.tree fun _ => moves_bind moves_skipLineBreaks fun _ => ?_
    refine moves_bind (reads_optional (reads_text ",")).moves fun _ => ?_
    split
    · exact moves_bind moves_skipLineBreaks fun _ =>
        moves_bind (reads_commit (reads_text "\x7d")).moves fun _ => moves_pure _
    · exact ih.listAfter _

theorem importMoves : ∀ fuel, ImportMoves t fuel
  | 0 => ⟨reads_outOfFuel, fun _ => reads_outOfFuel, reads_outOfFuel, fun _ => reads_outOfFuel⟩
  | fuel + 1 => (importMoves fuel).succ

theorem moves_modulePath : Moves t modulePath := by
  refine moves_bind moves_relativeMarkers fun _ => moves_bind (moves_sepBy1 moves_word
    moves_separator) fun _ => ?_
  -- a trailing file extension is dropped
  dsimp only
  split <;> exact moves_pure _

theorem moves_importDirective (fuel : Nat) : Moves t (importDirective fuel) :=
  moves_bind (importMoves fuel).tree fun _ =>
    moves_bind (reads_optional (moves_bind (reads_text "from").moves fun _ =>
      reads_commit moves_modulePath)).moves fun _ => moves_pure _

theorem moves_exportArgs : Moves t exportArgs := moves_map _ (reads_optional moves_importArgs).moves

theorem moves_lineEnd : Moves t lineEnd :=
  reads_orElse
    (moves_bind (reads_text ";").moves fun _ =>
      moves_bind (reads_optional (reads_kind .eol)).moves fun _ => moves_pure _)
    (reads_orElse (moves_map _ (reads_kind .eol).moves) moves_endOfInput)

/-! ### Items -/

/-- What reading an item gives from `lo` to `hi`: the spans of its elements ascend between
the two positions, and it is laid out. -/
def ItemRead (t : List Char) (lo hi : Nat) (item : Item) : Prop :=
  Span.Ascending t lo hi item.spans ∧ item.Laid t

/-- An item of one element: its span is where the item was read. -/
theorem itemRead_of_span {lo hi : Nat} {item : Item} {span : Span}
    (hspans : item.spans = [span]) (hlaid : item.Laid t) (h : span.Within t lo hi) :
    ItemRead t lo hi item :=
  ⟨hspans ▸ Span.Ascending.singleton h, hlaid⟩

theorem reads_moduleLine : Reads t moduleLine fun lo hi (item : Item) => ItemRead t lo hi item := by
  intro budget c c' item hc hrun
  obtain ⟨⟨path, span⟩, c₁, hc₁, hle₁, ⟨hspan, -⟩, hrun⟩ := (reads_spanned (moves_bind
    (reads_orElse (reads_text "module") (reads_text "#module")).moves fun _ =>
      reads_withSet (moves_bind (reads_commit moves_modulePath) fun _ =>
        moves_bind (reads_commit moves_lineEnd) fun _ => moves_pure _))).bind_ok hc hrun
  obtain ⟨rfl, rfl⟩ := pure_eq_ok hrun
  exact ⟨hc₁, hle₁, itemRead_of_span rfl trivial hspan⟩

theorem reads_importLine (fuel : Nat) :
    Reads t (importLine fuel) fun lo hi (item : Item) => ItemRead t lo hi item := by
  intro budget c c' item hc hrun
  obtain ⟨⟨⟨tree, dialect⟩, span⟩, c₁, hc₁, hle₁, ⟨hspan, -⟩, hrun⟩ := (reads_spanned
    (reads_orElse
      (moves_bind (reads_text "#import").moves fun _ =>
        reads_withSet (moves_bind (reads_commit (moves_importDirective fuel)) fun _ =>
          moves_bind (reads_commit moves_lineEnd) fun _ => moves_pure _))
      (moves_bind (reads_text "import").moves fun _ =>
        reads_withSet (moves_bind (reads_commit (importMoves fuel).tree) fun _ =>
          moves_bind (reads_commit moves_lineEnd) fun _ => moves_pure _)))).bind_ok hc hrun
  obtain ⟨rfl, rfl⟩ := pure_eq_ok hrun
  exact ⟨hc₁, hle₁, itemRead_of_span rfl trivial hspan⟩

theorem reads_exportLine : Reads t exportLine fun lo hi (item : Item) => ItemRead t lo hi item := by
  intro budget c c' item hc hrun
  obtain ⟨⟨params, span⟩, c₁, hc₁, hle₁, ⟨hspan, -⟩, hrun⟩ := (reads_spanned
    (moves_bind (reads_text "#export").moves fun _ =>
      reads_withSet (moves_bind moves_exportArgs fun _ =>
        moves_bind (reads_optional moves_lineEnd).moves fun _ => moves_pure _))).bind_ok hc hrun
  obtain ⟨rfl, rfl⟩ := pure_eq_ok hrun
  exact ⟨hc₁, hle₁, itemRead_of_span rfl trivial hspan⟩

theorem reads_passThrough (fuel : Nat) :
    Reads t (passThrough fuel) fun lo hi (item : Item) => ItemRead t lo hi item := by
  intro budget c c' item hc hrun
  obtain ⟨⟨u, span⟩, c₁, hc₁, hle₁, ⟨hspan, -⟩, hrun⟩ := (reads_spanned (reads_orElse
    (moves_map _ (reads_text ";").moves)
    (moves_bind (reads_orElse (reads_text "enable") (reads_orElse (reads_text "requires")
      (reads_orElse (reads_text "diagnostic") (reads_text "const_assert")))).moves fun _ =>
      moves_bind ((bodyReads fuel).body ";" .code).moves fun _ => moves_pure _))).bind_ok hc hrun
  obtain ⟨rfl, rfl⟩ := pure_eq_ok hrun
  exact ⟨hc₁, hle₁, itemRead_of_span rfl trivial hspan⟩

/-- A declaration item: the `export` keyword's element, when there is one, ends where the
declaration starts. -/
theorem itemRead_decl {lo hi : Nat} {d : DeclSyntax} (hlaid : d.Laid t)
    (hspan : d.span.Within t lo hi) (hkw : ∀ kw, d.exportKeyword = some kw → lo ≤ kw.start) :
    ItemRead t lo hi (.decl d) := by
  refine ⟨?_, hlaid⟩
  have hdecl : Span.Ascending t d.span.start hi [d.span] :=
    .singleton ⟨Nat.le_refl _, hspan.start_le, hspan.stop_le, hspan.start_boundary,
      hspan.stop_boundary⟩
  simp only [Item.spans]
  cases hk : d.exportKeyword with
  | none => exact hdecl.mono_lo hspan.lo_le
  | some kw =>
    obtain ⟨hbefore, hboundary⟩ := hlaid.keyword kw hk
    exact Span.Ascending.append (.singleton ⟨hkw kw hk, hbefore, Nat.le_refl _, hboundary,
      hspan.start_boundary⟩) hdecl

theorem reads_globalItem (fuel : Nat) :
    Reads t (globalItem fuel) fun lo hi o => ∀ item ∈ o, ItemRead t lo hi item := by
  have hsome : ∀ {p : Parser Item}, (Reads t p fun lo hi item => ItemRead t lo hi item) →
      Reads t (some <$> p) fun lo hi o => ∀ item ∈ o, ItemRead t lo hi item := fun hp =>
    (reads_map hp).weaken fun _ _ _ _ ⟨item, hitem, hread⟩ x hx => by
      cases hitem
      cases hx
      exact hread
  refine reads_orElse (hsome reads_moduleLine) (reads_orElse (hsome (reads_importLine fuel))
    (reads_orElse (hsome reads_exportLine) (reads_orElse (hsome (reads_passThrough fuel))
      (reads_orElse ?_ ?_))))
  · exact (reads_map (reads_declaration fuel)).weaken
      fun _ _ _ _ ⟨d, hd, hlaid, hspan, hkw⟩ x hx => by
      cases hd
      cases hx
      exact itemRead_decl hlaid hspan hkw
  · -- a skipped token yields no item
    exact (reads_map (moves_bind reads_anyToken.moves fun tok => moves_warn _ _)).weaken
      fun _ _ _ _ ⟨_, hnone, _⟩ x hx => by
        cases hnone
        cases hx

/-- Items read one after another, the skipped tokens dropped: their elements' spans ascend. -/
theorem Sequence.itemsRead {lo hi : Nat} {os : List (Option Item)}
    (h : Sequence (fun lo hi o => ∀ item ∈ o, ItemRead t lo hi item) lo hi os) :
    Span.Ascending t lo hi (os.reduceOption.flatMap Item.spans) ∧
      ∀ item ∈ os.reduceOption, item.Laid t := by
  induction h with
  | nil => exact ⟨.nil (Nat.le_refl _), by simp⟩
  | @cons lo mid hi o os hle ho _ ih =>
    cases o with
    | none =>
      rw [List.reduceOption_cons_of_none]
      exact ⟨ih.1.mono_lo hle, ih.2⟩
    | some item =>
      obtain ⟨hspans, hlaid⟩ := ho item rfl
      rw [List.reduceOption_cons_of_some, List.flatMap_cons]
      refine ⟨hspans.append ih.1, fun x hx => ?_⟩
      rcases List.mem_cons.1 hx with rfl | hx
      · exact hlaid
      · exact ih.2 x hx

/-- **The items of a module lie in order.** Read from the start of a text, the spans of the
items' elements ascend through the text, each a slice of it that ends before the next starts,
and every declaration is laid out in its span. -/
theorem topLevel_laid {s : String} {fuel budget : Nat} {items : List Item} {c' : Cursor}
    (h : topLevel fuel budget (Cursor.start s) = .ok items c') :
    Span.Ascending s.toList 0 (Text.byteSize s.toList) (items.flatMap Item.spans) ∧
      ∀ item ∈ items, item.Laid s.toList := by
  obtain ⟨os, c₁, hc₁, hle₁, hseq, hrun⟩ :=
    (reads_many (reads_globalItem fuel)).bind_ok (Cursor.aligned_start s) h
  obtain ⟨_, c₂, hc₂, hle₂, -, hrun⟩ := moves_endOfInput.bind_ok hc₁ hrun
  obtain ⟨rfl, rfl⟩ := pure_eq_ok hrun
  obtain ⟨hspans, hlaid⟩ := Sequence.itemsRead hseq
  exact ⟨hspans.mono_hi (Nat.le_trans hle₂ hc₂.pos_le_byteSize), hlaid⟩

end Grammar

end ShaderLink
