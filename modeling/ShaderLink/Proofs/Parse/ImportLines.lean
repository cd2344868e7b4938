import ShaderLink.Proofs.Parse.TreeReading
import ShaderLink.Parse.Unit

/-!
# Import lines in both spellings

The two spellings of an import read a written tree `T` and module path `P` as follows:

* `#import T from P` and a line break is an import of `(T.under []).withLead P.segments`
  (`parses_importLine_directive`): the tree is read alone, then the module path, whose
  segments are put in front of it;
* `import P/T;` and a line break is an import of `T.under P.segments`
  (`parses_importLine_tree`): the path and the tree are one written tree
  (`PathText.leading`), whose words are gathered into the lead of `T`.

A module path is read as the segments it declares: its segments, without a last one that is a
file extension (`parses_modulePath`).
-/

namespace ShaderLink

open ShaderLink.Parser

namespace Parser

theorem ahead_code_word {w more : List Char} (hw : Text.isWord w = true)
    (hmore : ∀ x ∈ more.head?, Text.isIdentContinue x = false) :
    Ahead .code (w ++ more) .word w more :=
  ahead_of_scan rfl (scan_code_word hw hmore)

theorem ahead_code_directive {w more : List Char} (hw : Text.isWord w = true)
    (hmore : ∀ x ∈ more.head?, Text.isIdentContinue x = false) :
    Ahead .code ('#' :: w ++ more) .directive ('#' :: w) more :=
  ahead_of_scan rfl (scan_code_directive hw hmore)

end Parser

namespace Grammar

variable {c : Cursor} {more : List Char}

/-! ### Module paths -/

theorem restSpelling_cons (s : PathSeparator) (w : String) (rest : List (PathSeparator × String)) :
    (PathText.restSpelling ((s, w) :: rest)).toList =
      s.spelling.toList ++ (w.toList ++ (PathText.restSpelling rest).toList) := by
  simp [PathText.restSpelling]

/-- After a word of a path comes a separator, or what ends the path. -/
theorem restSpelling_head (rest : List (PathSeparator × String)) {e : Char}
    (he : Text.isIdentContinue e = false) (more : List Char) :
    ∀ x ∈ ((PathText.restSpelling rest).toList ++ e :: more).head?,
      Text.isIdentContinue x = false := by
  cases rest with
  | nil => simpa [PathText.restSpelling] using he
  | cons e rest =>
    obtain ⟨s, w⟩ := e
    rw [restSpelling_cons]
    cases s <;> simp [PathSeparator.spelling] <;> decide

theorem length_le_restSpelling (rest : List (PathSeparator × String)) :
    rest.length ≤ (PathText.restSpelling rest).toList.length := by
  induction rest with
  | nil => simp
  | cons e rest ih =>
    obtain ⟨s, w⟩ := e
    have hs : 1 ≤ s.spelling.toList.length := by cases s <;> decide
    rw [restSpelling_cons]
    simp only [List.length_append, List.length_cons]
    omega

/-- The words of a path after the first, each after its separator, up to the line break. -/
theorem parses_pathTail {e : Char} (he : Text.isIdentContinue e = false)
    (hend : AheadNone (e :: more) ["/", "::", "."]) :
    ∀ (rest : List (PathSeparator × String)) (fuel : Nat) (c : Cursor),
    rest.all (Text.isWord ·.2.toList) = true → rest.length < fuel →
    c.rest = (PathText.restSpelling rest).toList ++ e :: more → c.set = .line →
    Parses (sepTailFor word separator fuel) c (rest.map (·.2)) (e :: more)
  | [], fuel, c, _, hlt, hc, hset => by
    obtain ⟨f, rfl⟩ : ∃ f, fuel = f + 1 := ⟨fuel - 1, by simp at hlt; omega⟩
    have hc' : c.rest = e :: more := by simpa [PathText.restSpelling] using hc
    have h := (declines_separator (by rw [hc']; exact hend) hset).sepTailFor (p := word) f
    rw [hc'] at h
    exact h
  | (s, w) :: rest, fuel, c, hwf, hlt, hc, hset => by
    obtain ⟨f, rfl⟩ : ∃ f, fuel = f + 1 := ⟨fuel - 1, by simp at hlt; omega⟩
    simp only [List.all_cons, Bool.and_eq_true] at hwf
    obtain ⟨x, xs, hxs, hx⟩ := Text.isWord_cons hwf.1
    rw [restSpelling_cons, List.append_assoc, List.append_assoc] at hc
    obtain ⟨tok, hsep⟩ := parses_separator s hx (by rw [hc, hxs]; rfl) hset
    refine hsep.sepTailFor_cons (fun c₁ hr₁ hs₁ => parses_word hwf.1 (by decide : Text.Spaces [])
      (by rw [hr₁, hxs]; rfl) (hs₁.trans hset) (restSpelling_head rest he more))
      fun c₂ hr₂ hs₂ => ?_
    exact parses_pathTail he hend rest f c₂ hwf.2 (by simpa using hlt) hr₂ (hs₂.trans hset)

/-- A module path, before a character `e` that ends it, is read as the segments it declares:
its segments, without a last one that is a file extension. -/
theorem parses_modulePath {p : PathText} {gap : List Char} {e : Char} (hp : p.wellFormed = true)
    (he : Text.isIdentContinue e = false) (hend : AheadNone (e :: more) ["/", "::", "."])
    (hgap : Text.Spaces gap) (hc : c.rest = gap ++ (p.spelling.toList ++ e :: more))
    (hset : c.set = .line) : Parses modulePath c p.declared (e :: more) := by
  simp only [PathText.wellFormed, Bool.and_eq_true] at hp
  have hhead := restSpelling_head p.rest he more
  have hstop : ∀ gap, Text.Spaces gap → ∃ k w rest, Ahead .line (gap ++ (p.first.toList ++
      ((PathText.restSpelling p.rest).toList ++ e :: more))) k w rest ∧ k ≠ .relativePrefix :=
    fun gap hgap => ⟨_, _, _, ahead_spacedWord hp.1 hgap hhead, by decide⟩
  have hc' : c.rest = gap ++ ((markersSpelling p.markers).toList ++ (p.first.toList ++
      ((PathText.restSpelling p.rest).toList ++ e :: more))) := by
    rw [hc]
    simp [PathText.spelling]
  obtain ⟨gap', hgap', hm⟩ := parses_relativeMarkers hstop hgap hc' hset
  have hlen := length_le_restSpelling p.rest
  unfold modulePath
  refine hm.bind fun c₁ hr₁ hs₁ => ?_
  refine (Parses.sepBy1 (parses_word hp.1 hgap' hr₁ (hs₁.trans hset) hhead) fun c₂ hr₂ hs₂ =>
    parses_pathTail he hend p.rest _ c₂ hp.2
      (by simp only [List.length_append, List.length_cons]; omega)
      hr₂ (hs₂.trans (hs₁.trans hset))).bind fun c₃ hr₃ _ => ?_
  have hsegs : p.markers.map PathMarker.segment ++ p.first :: p.rest.map (·.2) = p.segments := rfl
  simp only [hsegs]
  -- a last segment that is a file extension is dropped, as `declared` drops it
  rw [PathText.declared]
  split <;> exact hr₃ ▸ parses_pure _ _

/-! ### The end of a line and the directive spelling -/

/-- A line break ends a directive line. -/
theorem parses_lineEnd_eol (hc : c.rest = '\n' :: more) (hset : c.set = .line) :
    Parses lineEnd c () more := by
  unfold lineEnd
  have ha := (ahead_eol more).at hc hset
  refine Declines.orElse ((ha.declines_text (s := ";") (by decide)).bind) fun c₁ hr₁ hs₁ => ?_
  obtain ⟨span, hp⟩ := (ha.at hr₁ hs₁).parses_kind
  exact (hp.map (g := fun _ => ())).orElse

/-- A semicolon and a line break end a directive line. -/
theorem parses_lineEnd_semicolon (hc : c.rest = ';' :: '\n' :: more) (hset : c.set = .line) :
    Parses lineEnd c () more := by
  unfold lineEnd
  obtain ⟨tok, hsemi⟩ := ((ahead_plainSymbol (c := ';') (by decide) _).at hc hset).parses_text
    (s := ";") rfl
  refine Parses.orElse (hsemi.bind fun c₁ hr₁ hs₁ => ?_)
  obtain ⟨span, heol⟩ := ((ahead_eol more).at hr₁ (hs₁.trans hset)).parses_kind
  exact heol.optional.bind fun c₂ hr₂ _ => hr₂ ▸ parses_pure _ _

/-- The arguments of `#import`: a tree, then `from` and the module path it is relative to. -/
theorem parses_importDirective {t : TreeText} {p : PathText} {fuel : Nat}
    (ht : t.wellFormed = true) (hp : p.wellFormed = true)
    (hext : 1 < p.segments.length →
      p.segments.getLast? ≠ some "wgsl" ∧ p.segments.getLast? ≠ some "wesl")
    (hfuel : t.depth + 1 ≤ fuel)
    (hc : c.rest = ' ' :: (t.spelling.toList ++ (" from ".toList ++ (p.spelling.toList ++
      '\n' :: more)))) (hset : c.set = .line) :
    Parses (importDirective fuel) c ((t.under []).withLead p.segments) ('\n' :: more) := by
  unfold importDirective
  have htree := parses_item [] ht (TreeText.readable t ht) hfuel (by decide : Text.Spaces [' '])
    (by simpa [markersSpelling] using hc) hset (treeEnds_from _)
  refine htree.bind fun c₁ hr₁ hs₁ => ?_
  -- the word `from`, then the module path after a space
  have hfrom := (ahead_keyword (w := "from".toList) (by decide) (p.spelling.toList ++
    '\n' :: more)).at (by rw [hr₁]; rfl) (hs₁.trans hset)
  obtain ⟨tok, hf⟩ := hfrom.parses_text rfl
  -- the path before the line break declares its segments, having no extension to drop
  have hpath : ∀ c₂ : Cursor, c₂.rest = ' ' :: (p.spelling.toList ++ '\n' :: more) →
      c₂.set = .line → Parses modulePath c₂ p.segments ('\n' :: more) := fun c₂ hr hs => by
    rw [← PathText.declared_of_not_extension hext]
    exact parses_modulePath hp (by decide) ⟨_, _, _, ahead_eol more, by decide⟩
      (by decide : Text.Spaces [' ']) hr hs
  refine (Parses.optional (hf.bind fun c₂ hr₂ hs₂ => (hpath c₂ hr₂
    (hs₂.trans (hs₁.trans hset))).commit)).bind fun c₃ hr₃ _ => ?_
  exact hr₃ ▸ parses_pure _ _

/-! ### Import lines -/

/-- An `#import` line starts with the directive token, then a space. -/
theorem importDirective_start {rest : List Char} (hc : c.rest = '#' :: "import".toList ++ ' ' :: rest)
    (hset : c.set = .code) :
    scan c.set c.rest = .token .directive 7 ∧
      Ahead c.set c.rest .directive ('#' :: "import".toList) (' ' :: rest) := by
  refine ⟨?_, (ahead_code_directive (by decide) (by simp; decide)).at hc hset⟩
  rw [hc, hset]
  exact scan_code_directive (by decide) (by simp; decide)

/-- A line that starts with a keyword such as `import` or `module` starts with that word, then a
space. -/
theorem keyword_start {w rest : List Char} (hw : Text.isWord w = true)
    (hc : c.rest = w ++ ' ' :: rest) (hset : c.set = .code) :
    scan c.set c.rest = .token .word w.length ∧ Ahead c.set c.rest .word w (' ' :: rest) := by
  refine ⟨?_, (ahead_code_word hw (by simp; decide)).at hc hset⟩
  rw [hc, hset]
  exact scan_code_word hw (by simp; decide)

/-- `#import T from P` and a line break are an import of `T` with the segments of `P` in
front. -/
theorem parses_importLine_directive {t : TreeText} {p : PathText} {fuel : Nat}
    (ht : t.wellFormed = true) (hp : p.wellFormed = true)
    (hext : 1 < p.segments.length →
      p.segments.getLast? ≠ some "wgsl" ∧ p.segments.getLast? ≠ some "wesl")
    (hfuel : t.depth + 1 ≤ fuel)
    (hc : c.rest = ("#import " ++ t.spelling ++ " from " ++ p.spelling ++ "\n").toList ++ more)
    (hset : c.set = .code) :
    ∃ span, Parses (importLine fuel) c
      (.importItem ((t.under []).withLead p.segments) .directive span) more := by
  have hc' : c.rest = '#' :: "import".toList ++ ' ' :: (t.spelling.toList ++
      (" from ".toList ++ (p.spelling.toList ++ '\n' :: more))) := by
    rw [hc]
    simp
  obtain ⟨hscan, ha⟩ := importDirective_start hc' hset
  simp only [importLine]
  refine Parses.spanned_bind (a := ((t.under []).withLead p.segments, .directive)) (m := more)
    (parses_skipIgnored_first hscan rfl) (fun c₁ hr₁ hs₁ => ?_) fun span c₂ hr₂ _ => ?_
  · obtain ⟨tok, htext⟩ := (ha.at hr₁ hs₁).parses_text (s := "#import") rfl
    refine Parses.orElse (htext.bind fun c₂ hr₂ hs₂ => Parses.withSet ?_)
    refine (parses_importDirective ht hp hext hfuel (c := { c₂ with set := .line }) hr₂
      rfl).commit.bind fun c₃ hr₃ hs₃ => ?_
    exact (parses_lineEnd_eol hr₃ hs₃).commit.bind fun c₄ hr₄ _ => hr₄ ▸ parses_pure _ _
  · exact hr₂ ▸ parses_pure _ _

/-- `import P/T;` and a line break are an import of `T` under the segments of `P`. -/
theorem parses_importLine_tree {t : TreeText} {p : PathText} {fuel : Nat}
    (ht : t.wellFormed = true) (hp : p.wellFormed = true)
    (hfuel : (PathText.leading p.first p.rest t).depth + 1 ≤ fuel)
    (hc : c.rest = ("import " ++ p.spelling ++ "/" ++ t.spelling ++ ";\n").toList ++ more)
    (hset : c.set = .code) :
    ∃ span, Parses (importLine fuel) c (.importItem (t.under p.segments) .tree span) more := by
  simp only [PathText.wellFormed, Bool.and_eq_true] at hp
  have hlead := PathText.wellFormed_leading hp.1 hp.2 ht
  -- the path and the tree are one written tree after the markers
  have hc' : c.rest = "import".toList ++ ' ' :: ((markersSpelling p.markers).toList ++
      ((PathText.leading p.first p.rest t).spelling.toList ++ ';' :: '\n' :: more)) := by
    rw [hc, PathText.spelling_leading]
    simp [PathText.spelling]
  obtain ⟨hscan, ha⟩ := keyword_start (by decide) hc' hset
  simp only [importLine]
  refine Parses.spanned_bind (a := (t.under p.segments, .tree)) (m := more)
    (parses_skipIgnored_first hscan rfl) (fun c₁ hr₁ hs₁ => ?_) fun span c₂ hr₂ _ => ?_
  · refine Declines.orElse ((ha.at hr₁ hs₁).declines_text (s := "#import") (by decide)).bind
      fun c₂ hr₂ hs₂ => ?_
    obtain ⟨tok, htext⟩ := (ha.at (hr₂.trans hr₁) (hs₂.trans hs₁)).parses_text (s := "import") rfl
    refine htext.bind fun c₃ hr₃ hs₃ => Parses.withSet ?_
    have hitem := parses_item p.markers hlead (TreeText.readable _ hlead) hfuel
      (by decide : Text.Spaces [' ']) (c := { c₃ with set := .line }) hr₃ rfl
      (treeEnds_punct (.inr (.inr rfl)) ('\n' :: more))
    rw [PathText.under_leading] at hitem
    refine hitem.commit.bind fun c₄ hr₄ hs₄ => ?_
    exact (parses_lineEnd_semicolon hr₄ hs₄).commit.bind fun c₅ hr₅ _ => hr₅ ▸ parses_pure _ _
  · exact hr₂ ▸ parses_pure _ _

/-! ### A module of one import line -/

section AtEnd

/-- Nothing is skipped at the end of the text. -/
theorem skipIgnored_at_end (h : c.rest = []) : Parses skipIgnored c () c.rest := by
  rw [h]
  exact parses_skipIgnored_end h

/-- At the end of the text, a rule that first reads the text `s` declines, whatever follows
it. -/
theorem declines_textBind_end {s : String} {f : Token → Parser α} (h : c.rest = []) :
    Declines (text s >>= f) c :=
  (declines_text_end h).bind

theorem declines_moduleLine_end (h : c.rest = []) : Declines moduleLine c := by
  unfold moduleLine
  refine Declines.bind (Declines.spanned (skipIgnored_at_end h) fun c₁ hr₁ _ => ?_)
  exact (Declines.orElse_declines (declines_text_end (hr₁.trans h)) fun c₂ hr₂ _ =>
    declines_text_end (hr₂.trans (hr₁.trans h))).bind

theorem declines_importLine_end {fuel : Nat} (h : c.rest = []) : Declines (importLine fuel) c := by
  simp only [importLine]
  refine Declines.bind (Declines.spanned (skipIgnored_at_end h) fun c₁ hr₁ _ => ?_)
  exact Declines.orElse_declines (declines_textBind_end (hr₁.trans h)) fun c₂ hr₂ _ =>
    declines_textBind_end (hr₂.trans (hr₁.trans h))

theorem declines_exportLine_end (h : c.rest = []) : Declines exportLine c := by
  unfold exportLine
  exact Declines.bind (Declines.spanned (skipIgnored_at_end h) fun c₁ hr₁ _ =>
    declines_textBind_end (hr₁.trans h))

theorem declines_passThrough_end {fuel : Nat} (h : c.rest = []) :
    Declines (passThrough fuel) c := by
  simp only [passThrough]
  refine Declines.bind (Declines.spanned (skipIgnored_at_end h) fun c₁ hr₁ _ => ?_)
  have h₁ := hr₁.trans h
  refine Declines.orElse_declines (declines_text_end h₁).map fun c₂ hr₂ _ => ?_
  -- no statement keyword is there either
  have h₂ := hr₂.trans h₁
  refine Declines.bind (Declines.orElse_declines (declines_text_end h₂) fun c₃ hr₃ _ => ?_)
  have h₃ := hr₃.trans h₂
  refine Declines.orElse_declines (declines_text_end h₃) fun c₄ hr₄ _ => ?_
  have h₄ := hr₄.trans h₃
  exact Declines.orElse_declines (declines_text_end h₄) fun c₅ hr₅ _ =>
    declines_text_end (hr₅.trans h₄)

/-- At the end of the text a declaration has no attributes and no keyword to start it. -/
theorem declines_declaration_end {fuel : Nat} (h : c.rest = []) :
    Declines (declaration fuel) c := by
  have hexport : Declines (spanned (text "export")) c :=
    Declines.spanned (skipIgnored_at_end h) fun c₁ hr₁ _ => declines_text_end (hr₁.trans h)
  obtain ⟨c₁, hr₁, hs₁, hle₁, hrun₁⟩ := hexport.optional
  have h₁ : c₁.rest = [] := hr₁.trans h
  have hattrs : ∀ c' : Cursor, c'.rest = [] → Parses (attributes fuel) c' #[] [] := by
    intro c' h'
    unfold attributes
    refine (parses_many_iff.2 (Declines.manyFor_any (declines_textBind_end h') _)).bind
      fun c₂ hr₂ _ => ?_
    rw [h'] at hr₂
    exact hr₂ ▸ parses_pure _ _
  have hbody : Declines (spanned (do
      let attrs ← attributes fuel
      let d ← (function fuel).orElse ((structDecl fuel).orElse
        ((globalValue fuel).orElse (typeAlias fuel)))
      pure (attrs, d))) c₁ := by
    refine Declines.spanned (skipIgnored_at_end h₁) fun c₂ hr₂ hs₂ => ?_
    refine (hattrs c₂ (hr₂.trans h₁)).bind_declines fun c₃ hr₃ _ => Declines.bind ?_
    refine Declines.orElse_declines (declines_textBind_end hr₃) fun c₄ hr₄ _ => ?_
    have h₄ := hr₄.trans hr₃
    refine Declines.orElse_declines (declines_textBind_end h₄) fun c₅ hr₅ _ => ?_
    have h₅ := hr₅.trans h₄
    refine Declines.orElse_declines ?_ fun c₆ hr₆ _ => declines_textBind_end (hr₆.trans h₅)
    exact Declines.bind (Declines.orElse_declines (declines_text_end h₅) fun c₆ hr₆ _ =>
      Declines.orElse_declines (declines_text_end (hr₆.trans h₅)) fun c₇ hr₇ _ =>
        declines_text_end (hr₇.trans (hr₆.trans h₅)))
  obtain ⟨e, c₂, he, hs₂, hle₂, hrun₂⟩ := hbody
  refine ⟨e, c₂, he, hs₂.trans hs₁, Nat.le_trans hle₁ hle₂, fun budget hb => ?_⟩
  simp [declaration, hrun₁ budget (Nat.le_trans hle₂ hb), hrun₂ budget hb]

/-- At the end of the text no item starts, and no token is there to skip. -/
theorem declines_globalItem_end {fuel : Nat} (h : c.rest = []) :
    Declines (globalItem fuel) c := by
  unfold globalItem
  refine Declines.orElse_declines (declines_moduleLine_end h).map fun c₁ hr₁ _ => ?_
  have h₁ := hr₁.trans h
  refine Declines.orElse_declines (declines_importLine_end h₁).map fun c₂ hr₂ _ => ?_
  have h₂ := hr₂.trans h₁
  refine Declines.orElse_declines (declines_exportLine_end h₂).map fun c₃ hr₃ _ => ?_
  have h₃ := hr₃.trans h₂
  refine Declines.orElse_declines (declines_passThrough_end h₃).map fun c₄ hr₄ _ => ?_
  have h₄ := hr₄.trans h₃
  refine Declines.orElse_declines (declines_declaration_end h₄).map fun c₅ hr₅ _ => ?_
  unfold skipUnknown
  exact (declines_anyToken (hr₅.trans h₄)).bind.map

end AtEnd

/-- Where the first token is neither `module` nor `#module`, no module line starts. -/
theorem declines_moduleLine_of_ahead {k : TokenKind} {w r : List Char}
    (hscan : scan c.set c.rest = .token k w.length) (hk : c.set.ignores k = false)
    (ha : Ahead c.set c.rest k w r) (hne : w ≠ "module".toList ∧ w ≠ "#module".toList) :
    Declines moduleLine c := by
  unfold moduleLine
  refine Declines.bind (Declines.spanned (parses_skipIgnored_first hscan hk) fun c₁ hr₁ hs₁ => ?_)
  have ha₁ := ha.at hr₁ hs₁
  exact (Declines.orElse_declines (ha₁.declines_text_of_ne hne.1) fun c₂ hr₂ hs₂ =>
    (ha₁.at hr₂ hs₂).declines_text_of_ne hne.2).bind

/-- Where no module line starts, an import line is read as the item there. -/
theorem parses_globalItem_of_import {fuel : Nat} {P : Item → Prop} (hmod : Declines moduleLine c)
    (himport : ∀ c₁ : Cursor, c₁.rest = c.rest → c₁.set = c.set →
      ∃ item, P item ∧ Parses (importLine fuel) c₁ item more) :
    ∃ item, P item ∧ Parses (globalItem fuel) c (some item) more := by
  suffices hs : ∃ o, (∃ item, o = some item ∧ P item) ∧ Parses (globalItem fuel) c o more by
    obtain ⟨o, ⟨item, rfl, hP⟩, hp⟩ := hs
    exact ⟨item, hP, hp⟩
  unfold globalItem
  refine hmod.map.orElse_satisfies fun c₁ hr₁ hs₁ => ?_
  obtain ⟨item, hP, h⟩ := himport c₁ hr₁ hs₁
  exact ⟨some item, ⟨item, rfl, hP⟩, h.map.orElse⟩

/-- A text that is one item up to its end is read as that item alone. -/
theorem parses_topLevel_single {item : Item} {fuel : Nat}
    (hitem : Parses (globalItem fuel) c (some item) []) : Parses (topLevel fuel) c [item] [] := by
  -- after the item every rule declines, so the repetition stops there
  have hmany : Parses (many (globalItem fuel)) c [some item] [] :=
    parses_many_iff.2 (hitem.manyFor_cons fun c₁ hr₁ _ => by
      have h := (declines_globalItem_end hr₁ : Declines (globalItem fuel) c₁).manyFor_any
        c.rest.length
      rwa [hr₁] at h)
  unfold topLevel endOfInput
  refine hmany.bind fun c₂ hr₂ _ => ?_
  refine (Declines.notFollowedBy (declines_anyToken hr₂)).bind fun c₃ hr₃ _ => ?_
  rw [hr₂] at hr₃
  exact hr₃ ▸ parses_pure _ _

/-- `#import T from P` and a line break are read as an item where they stand. -/
theorem parses_globalItem_directive {t : TreeText} {p : PathText} {fuel : Nat}
    (ht : t.wellFormed = true) (hp : p.wellFormed = true)
    (hext : 1 < p.segments.length →
      p.segments.getLast? ≠ some "wgsl" ∧ p.segments.getLast? ≠ some "wesl")
    (hfuel : t.depth + 1 ≤ fuel)
    (hc : c.rest = ("#import " ++ t.spelling ++ " from " ++ p.spelling ++ "\n").toList ++ more)
    (hset : c.set = .code) :
    ∃ span, Parses (globalItem fuel) c
      (some (.importItem ((t.under []).withLead p.segments) .directive span)) more := by
  have hc' : c.rest = '#' :: "import".toList ++ ' ' :: (t.spelling.toList ++
      (" from ".toList ++ (p.spelling.toList ++ '\n' :: more))) := by
    rw [hc]
    simp
  obtain ⟨hscan, ha⟩ := importDirective_start hc' hset
  obtain ⟨_, ⟨span, rfl⟩, h⟩ := parses_globalItem_of_import
    (P := fun item => ∃ span, item = .importItem ((t.under []).withLead p.segments) .directive span)
    (declines_moduleLine_of_ahead hscan rfl ha ⟨by decide, by decide⟩) fun c₁ hr₁ hs₁ => by
      obtain ⟨span, h⟩ := parses_importLine_directive ht hp hext hfuel (hr₁.trans hc)
        (hs₁.trans hset)
      exact ⟨_, ⟨span, rfl⟩, h⟩
  exact ⟨span, h⟩

/-- `import P/T;` and a line break are read as an item where they stand. -/
theorem parses_globalItem_tree {t : TreeText} {p : PathText} {fuel : Nat}
    (ht : t.wellFormed = true) (hp : p.wellFormed = true)
    (hfuel : (PathText.leading p.first p.rest t).depth + 1 ≤ fuel)
    (hc : c.rest = ("import " ++ p.spelling ++ "/" ++ t.spelling ++ ";\n").toList ++ more)
    (hset : c.set = .code) :
    ∃ span, Parses (globalItem fuel) c (some (.importItem (t.under p.segments) .tree span)) more := by
  have hc' : c.rest = "import".toList ++ ' ' :: (p.spelling.toList ++ ("/".toList ++
      (t.spelling.toList ++ (";\n".toList ++ more)))) := by
    rw [hc]
    simp
  obtain ⟨hscan, ha⟩ := keyword_start (by decide) hc' hset
  obtain ⟨_, ⟨span, rfl⟩, h⟩ := parses_globalItem_of_import
    (P := fun item => ∃ span, item = .importItem (t.under p.segments) .tree span)
    (declines_moduleLine_of_ahead hscan rfl ha ⟨by decide, by decide⟩) fun c₁ hr₁ hs₁ => by
      obtain ⟨span, h⟩ := parses_importLine_tree ht hp hfuel (hr₁.trans hc) (hs₁.trans hset)
      exact ⟨_, ⟨span, rfl⟩, h⟩
  exact ⟨span, h⟩

end Grammar

end ShaderLink
