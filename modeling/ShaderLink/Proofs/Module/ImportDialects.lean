import ShaderLink.Proofs.Parse.ImportLines
import ShaderLink.Proofs.Edit.DirectiveFree
import ShaderLink.Module.Parsed

/-!
# The two import spellings agree

For every written tree `T` and module path `P`, the module made of the line `#import T from P`
and the module made of the line `import P/T;` each hold one import element
(`parseModule_importDirective`, `parseModule_importTree`), of the trees
`(T.under []).withLead P.segments` and `T.under P.segments`. These have the same leaves, and are
the same tree unless `T` is itself a path (`importDialects_agree`): a path in `T` joins its
words to the lead in the tree spelling, while the directive spelling puts `P` in front of the
node that `T` alone leads to.

## What each result rests on

* The grammar: `parses_globalItem_directive` and `parses_globalItem_tree` read the line as one
  item, and `parses_topLevel_single` the module as that item alone.
* The conditions: a written tree has no line that starts an `#if`, `#else` or `#endif`
  (`TreeText.linesBegin`): a line break in it is always followed by indentation and an item, or
  by the closing brace. So the conditions leave both texts as they are
  (`applyConditions_of_directiveFree`).
* The assembly: a module of one import item has that one element (`Assembly.build_importItem`).
-/

namespace ShaderLink

open ShaderLink.Parser

/-! ### No line of a written tree is a conditional directive -/

namespace Text

theorem isWord_tail {x : Char} {xs : List Char} (hw : isWord (x :: xs) = true) :
    xs.all isIdentContinue = true := by
  by_cases hu : x = '_'
  · subst hu
    simp only [isWord, Bool.and_eq_true] at hw
    exact hw.2
  · simp only [isWord, Bool.and_eq_true] at hw
    exact hw.2

theorem newline_not_mem_of_isWord {w : List Char} (hw : isWord w = true) : '\n' ∉ w := by
  obtain ⟨x, xs, rfl, hx⟩ := isWord_cons hw
  have hall := isWord_tail hw
  intro hmem
  rcases List.mem_cons.1 hmem with h | h
  · rw [← h] at hx
    exact absurd hx (by decide)
  · exact absurd (List.all_eq_true.1 hall _ h) (by decide)

theorem newline_not_mem_of_isArgument {a : String} (ha : isArgument a = true) :
    '\n' ∉ a.toList := by
  simp only [isArgument, Bool.or_eq_true] at ha
  rcases ha with hw | hn
  · exact newline_not_mem_of_isWord hw
  · simp only [isNumeral, Bool.and_eq_true, List.all_eq_true] at hn
    exact fun hmem => absurd (hn.2 _ hmem) (by decide)

end Text

theorem newline_not_mem_renameSpelling {asName : Option String}
    (hwf : asName.all (Text.isWord ·.toList) = true) : '\n' ∉ (renameSpelling asName).toList := by
  cases asName with
  | none => simp [renameSpelling]
  | some a =>
    have := Text.newline_not_mem_of_isWord (by simpa using hwf)
    simp [renameSpelling, this]

theorem newline_not_mem_argsSpelling {args : Option (List String)}
    (hargs : args.all (·.all isArgument) = true) : '\n' ∉ (argsSpelling args).toList := by
  rcases args with _ | _ | ⟨a, as⟩
  · simp [argsSpelling]
  · simp [argsSpelling]
  · simp only [Option.all_some, List.all_cons, Bool.and_eq_true, List.all_eq_true] at hargs
    intro hmem
    simp only [argsSpelling, String.toList_append, List.mem_append, String.toList_join,
      List.mem_flatMap, List.mem_map] at hmem
    rcases hmem with ((h | h) | ⟨_, ⟨b, hb, rfl⟩, h⟩) | h
    · exact absurd h (by decide)
    · exact Text.newline_not_mem_of_isArgument hargs.1 h
    · simp only [String.toList_append, List.mem_append] at h
      rcases h with h | h
      · exact absurd h (by decide)
      · exact Text.newline_not_mem_of_isArgument (hargs.2 b hb) h
    · exact absurd h (by decide)

theorem newline_not_mem_markersSpelling (ms : List PathMarker) :
    '\n' ∉ (markersSpelling ms).toList := by
  induction ms with
  | nil => simp [markersSpelling]
  | cons m ms ih =>
    simp only [markersSpelling, List.map_cons, String.join_cons, String.toList_append,
      List.mem_append, not_or] at ih ⊢
    exact ⟨by cases m <;> decide, ih⟩

theorem PathText.newline_not_mem {p : PathText} (hp : p.wellFormed = true) :
    '\n' ∉ p.spelling.toList := by
  simp only [wellFormed, Bool.and_eq_true, List.all_eq_true] at hp
  intro hmem
  simp only [spelling, restSpelling, String.toList_append, List.mem_append, String.toList_join,
    List.mem_flatMap, List.mem_map] at hmem
  rcases hmem with (h | h) | ⟨_, ⟨⟨s, w⟩, hw, rfl⟩, h⟩
  · exact newline_not_mem_markersSpelling p.markers h
  · exact Text.newline_not_mem_of_isWord hp.1 h
  · simp only [String.toList_append, List.mem_append] at h
    rcases h with h | h
    · cases s <;> exact absurd h (by decide)
    · exact Text.newline_not_mem_of_isWord (hp.2 _ hw) h

/-- The line of an item of a list laid out one per line: indentation, then a marker or the
first character of the tree, neither of which starts a directive. -/
theorem begins_item (ms : List PathMarker) {t : TreeText} (ht : t.wellFormed = true)
    (more : List Char) :
    Text.Begins (' ' :: ' ' :: ((markersSpelling ms).toList ++ (t.spelling.toList ++ more))) := by
  obtain ⟨x, hx, hrest⟩ : ∃ x, (x = '.' ∨ startsTree x = true) ∧
      ∃ rest, (markersSpelling ms).toList ++ (t.spelling.toList ++ more) = x :: rest := by
    cases ms with
    | nil =>
      obtain ⟨x, xs, hxs, hx⟩ := TreeText.spelling_cons ht
      exact ⟨x, .inr hx, xs ++ more, by simp [markersSpelling, hxs]⟩
    | cons m ms =>
      refine ⟨'.', .inl rfl, ?_⟩
      cases m with
      | here => exact ⟨'/' :: ((markersSpelling ms).toList ++ (t.spelling.toList ++ more)),
          by simp [markersSpelling, PathMarker.spelling]⟩
      | up => exact ⟨'.' :: '/' :: ((markersSpelling ms).toList ++ (t.spelling.toList ++ more)),
          by simp [markersSpelling, PathMarker.spelling]⟩
  obtain ⟨rest, hrest⟩ := hrest
  have hplain : Text.isBlank x = false ∧ x ≠ '#' ∧ x ≠ '/' := by
    rcases hx with rfl | hx
    · decide
    · obtain ⟨hblank, hslash, -, -⟩ := startsTree_plain hx
      refine ⟨hblank, ?_, hslash⟩
      rintro rfl
      exact absurd hx (by decide)
  have hnl : '\n' ≠ x := by
    rintro rfl
    exact absurd hplain.1 (by decide)
  refine ⟨[' ', ' ', x], rest, by rw [hrest]; rfl, by simp [hnl], ?_⟩
  exact LineDirective.settles_plain (by decide : Text.Spaces [' ', ' ']) hplain.1 hplain.2.1
    hplain.2.2

mutual

/-- After every line break of a written tree a line starts that is no conditional directive. -/
theorem TreeText.linesBegin : ∀ t : TreeText, t.wellFormed = true →
    Text.LinesBegin t.spelling.toList
  | .simple name args asName, h => by
    simp only [TreeText.wellFormed, Bool.and_eq_true] at h
    refine Text.LinesBegin.of_not_mem ?_
    simp only [TreeText.spelling, String.toList_append, List.mem_append, not_or]
    exact ⟨⟨Text.newline_not_mem_of_isWord h.1.1, newline_not_mem_argsSpelling h.1.2⟩,
      newline_not_mem_renameSpelling h.2⟩
  | .wildcard asName, h => by
    refine Text.LinesBegin.of_not_mem ?_
    simp only [TreeText.spelling, String.toList_append, List.mem_append, not_or]
    exact ⟨by decide, newline_not_mem_renameSpelling h⟩
  | .list .inline items, h => by
    simp only [TreeText.spelling, String.toList_append]
    exact ((Text.LinesBegin.of_not_mem (by decide)).append
      (ItemsText.linesBegin_inline items h)).append (Text.LinesBegin.of_not_mem (by decide))
  | .list .lines items, h => by
    simp only [TreeText.spelling, String.toList_append]
    -- the closing brace stands at the start of its own line
    have hclose : Text.LinesBegin "\n\x7d".toList :=
      Text.LinesBegin.cons_break ⟨['\x7d'], [], rfl, by decide,
        LineDirective.settles_plain (by decide : Text.Spaces []) (by decide) (by decide) (by decide)⟩
        (Text.LinesBegin.of_not_mem (by decide))
    exact ((Text.LinesBegin.of_not_mem (by decide)).append
      (ItemsText.linesBegin_lines items h)).append hclose
  | .path segment sep tail, h => by
    simp only [TreeText.wellFormed, Bool.and_eq_true] at h
    simp only [TreeText.spelling, String.toList_append]
    exact ((Text.LinesBegin.of_not_mem (Text.newline_not_mem_of_isWord h.1)).append
      (Text.LinesBegin.of_not_mem (by cases sep <;> decide))).append (TreeText.linesBegin tail h.2)

theorem ItemsText.linesBegin_inline : ∀ items : ItemsText, items.wellFormed = true →
    Text.LinesBegin items.inlineSpelling.toList
  | .nil, _ => Text.LinesBegin.of_not_mem (by simp [ItemsText.inlineSpelling])
  | .cons ms t rest, h => by
    simp only [ItemsText.wellFormed, Bool.and_eq_true] at h
    rw [ItemsText.inlineSpelling_cons]
    exact (Text.LinesBegin.of_not_mem (newline_not_mem_markersSpelling ms)).append
      ((TreeText.linesBegin t h.1).append (ItemsText.linesBegin_inlineRest rest h.2))

theorem ItemsText.linesBegin_inlineRest : ∀ items : ItemsText, items.wellFormed = true →
    Text.LinesBegin items.inlineRest.toList
  | .nil, _ => Text.LinesBegin.of_not_mem (by simp [ItemsText.inlineRest])
  | .cons ms t rest, h => by
    simp only [ItemsText.wellFormed, Bool.and_eq_true] at h
    simp only [ItemsText.inlineRest, String.toList_append]
    exact (((Text.LinesBegin.of_not_mem (by decide)).append
      (Text.LinesBegin.of_not_mem (newline_not_mem_markersSpelling ms))).append
      (TreeText.linesBegin t h.1)).append (ItemsText.linesBegin_inlineRest rest h.2)

theorem ItemsText.linesBegin_lines : ∀ items : ItemsText, items.wellFormed = true →
    Text.LinesBegin items.linesSpelling.toList
  | .nil, _ => Text.LinesBegin.of_not_mem (by simp [ItemsText.linesSpelling])
  | .cons ms t rest, h => by
    simp only [ItemsText.wellFormed, Bool.and_eq_true] at h
    rw [ItemsText.linesSpelling_cons]
    -- the item's line starts after the break, with its indentation
    refine Text.LinesBegin.cons_break (begins_item ms h.1 _) ?_
    exact (Text.LinesBegin.of_not_mem (by decide) : Text.LinesBegin [' ', ' ']).append
      ((Text.LinesBegin.of_not_mem (newline_not_mem_markersSpelling ms)).append
        ((TreeText.linesBegin t h.1).append
          ((Text.LinesBegin.of_not_mem (by decide) : Text.LinesBegin [',']).append
            (ItemsText.linesBegin_lines rest h.2))))

end

/-! ### The two modules -/

/-- The directive spelling has no conditional directive line. -/
theorem directiveText_directiveFree {t : TreeText} {p : PathText} (ht : t.wellFormed = true)
    (hp : p.wellFormed = true) :
    ∀ l ∈ Text.linesWithBreaks ("#import " ++ t.spelling ++ " from " ++ p.spelling ++ "\n").toList,
      LineDirective.read? l = none := by
  have htext : ("#import " ++ t.spelling ++ " from " ++ p.spelling ++ "\n").toList =
      ("#import ".toList ++ (t.spelling.toList ++ (" from ".toList ++ p.spelling.toList))) ++
        ['\n'] := by
    simp
  have hfirst : Text.Begins "#import ".toList :=
    ⟨"#import ".toList, [], by simp, by decide,
      LineDirective.settles_import (by decide : Text.Spaces [])⟩
  rw [htext]
  exact Text.read?_linesWithBreaks (hfirst.append _)
    ((Text.LinesBegin.of_not_mem (by decide)).append ((TreeText.linesBegin t ht).append
      ((Text.LinesBegin.of_not_mem (by decide)).append
        (Text.LinesBegin.of_not_mem (PathText.newline_not_mem hp)))))

/-- The tree spelling has no conditional directive line. -/
theorem treeText_directiveFree {t : TreeText} {p : PathText} (ht : t.wellFormed = true)
    (hp : p.wellFormed = true) :
    ∀ l ∈ Text.linesWithBreaks ("import " ++ p.spelling ++ "/" ++ t.spelling ++ ";\n").toList,
      LineDirective.read? l = none := by
  have htext : ("import " ++ p.spelling ++ "/" ++ t.spelling ++ ";\n").toList =
      ("import ".toList ++ (p.spelling.toList ++ ("/".toList ++ (t.spelling.toList ++
        ";".toList)))) ++ ['\n'] := by
    simp
  have hfirst : Text.Begins "import ".toList :=
    ⟨['i'], "mport ".toList, rfl, by decide,
      LineDirective.settles_plain (by decide : Text.Spaces []) (by decide) (by decide) (by decide)⟩
  rw [htext]
  exact Text.read?_linesWithBreaks (hfirst.append _)
    ((Text.LinesBegin.of_not_mem (by decide)).append
      ((Text.LinesBegin.of_not_mem (PathText.newline_not_mem hp)).append
        ((Text.LinesBegin.of_not_mem (by decide)).append
          ((TreeText.linesBegin t ht).append (Text.LinesBegin.of_not_mem (by decide))))))

/-- A module of one import item has that one element. -/
theorem Assembly.build_importItem (tree : ImportTree) (d : ImportDialect) (span : Span)
    (notes : Array (Span × String)) :
    (Assembly.build [.importItem tree d span] notes).1.elems = #[.importItem span tree d] := by
  simp [Assembly.build, Assembly.declareAll, Assembly.exportsAllOf, Assembly.addItem]

/-- A text without conditional directives that the grammar reads as one item is, with any
budget from some point on, the module assembled from that item alone: its elements, and the path
it declares or else the one of its file. -/
theorem parseModule_single {text path : String} {conds : Conditions} {item : Item}
    (hquiet : ∀ l ∈ Text.linesWithBreaks text.toList, LineDirective.read? l = none)
    (hread : Parses (Grammar.topLevel (grammarFuel text)) (Cursor.start text) [item] []) :
    ∃ n, ∀ budget, n ≤ budget → ∃ m notes, parseModule text path ⟨conds, budget⟩ = .ok m ∧
      m.elems = (Assembly.build [item] notes).1.elems ∧
      m.path = ((Assembly.build [item] notes).1.path.map ModulePath.mk).getD
        (ModulePath.ofFilePath path) := by
  obtain ⟨c', -, -, -, hrun⟩ := hread
  have hdest := (@applyConditions_of_directiveFree text path conds hquiet).1
  refine ⟨c'.steps, fun budget hb => ?_⟩
  simp only [parseModule, hdest, hrun budget hb, Except.ok.injEq]
  exact ⟨_, c'.notes, rfl, rfl, rfl⟩

/-- A text without conditional directives that the grammar reads as one import item is a
module of that one element, with any budget from some point on. -/
theorem parseModule_single_import {text path : String} {conds : Conditions} {tree : ImportTree}
    {d : ImportDialect} (hquiet : ∀ l ∈ Text.linesWithBreaks text.toList, LineDirective.read? l = none)
    (hread : ∃ span, Parses (Grammar.topLevel (grammarFuel text)) (Cursor.start text)
      [.importItem tree d span] []) :
    ∃ n, ∀ budget, n ≤ budget → ∃ m span, parseModule text path ⟨conds, budget⟩ = .ok m ∧
      m.elems = #[.importItem span tree d] := by
  obtain ⟨span, hread⟩ := hread
  obtain ⟨n, h⟩ := @parseModule_single _ path conds _ hquiet hread
  refine ⟨n, fun budget hb => ?_⟩
  obtain ⟨m, notes, hm, helems, -⟩ := h budget hb
  exact ⟨m, span, hm, helems.trans (Assembly.build_importItem tree d span notes)⟩

/-- `#import T from P` is a module of one import element, the tree `T` alone with the segments of
`P` in front. -/
theorem parseModule_importDirective (conds : Conditions) (path : String) {t : TreeText}
    {p : PathText} (ht : t.wellFormed = true) (hp : p.wellFormed = true)
    (hext : 1 < p.segments.length →
      p.segments.getLast? ≠ some "wgsl" ∧ p.segments.getLast? ≠ some "wesl") :
    ∃ n, ∀ budget, n ≤ budget → ∃ m span,
      parseModule ("#import " ++ t.spelling ++ " from " ++ p.spelling ++ "\n") path
        ⟨conds, budget⟩ = .ok m ∧
      m.elems = #[.importItem span ((t.under []).withLead p.segments) .directive] := by
  refine parseModule_single_import (directiveText_directiveFree ht hp) ?_
  -- the fuel of the grammar exceeds twice the length of the tree
  have hfuel : t.depth + 1 ≤
      grammarFuel ("#import " ++ t.spelling ++ " from " ++ p.spelling ++ "\n") := by
    have := TreeText.depth_le t ht
    simp only [grammarFuel, String.length_append]
    omega
  obtain ⟨span, h⟩ := Grammar.parses_globalItem_directive ht hp hext hfuel
    (c := Cursor.start _) (List.append_nil _).symm rfl
  exact ⟨span, Grammar.parses_topLevel_single h⟩

/-- `import P/T;` is a module of one import element, the tree `T` under the segments of `P`. -/
theorem parseModule_importTree (conds : Conditions) (path : String) {t : TreeText} {p : PathText}
    (ht : t.wellFormed = true) (hp : p.wellFormed = true) :
    ∃ n, ∀ budget, n ≤ budget → ∃ m span,
      parseModule ("import " ++ p.spelling ++ "/" ++ t.spelling ++ ";\n") path
        ⟨conds, budget⟩ = .ok m ∧
      m.elems = #[.importItem span (t.under p.segments) .tree] := by
  refine parseModule_single_import (treeText_directiveFree ht hp) ?_
  -- the path and the tree written together are no longer than the text
  have hlead : (PathText.leading p.first p.rest t).wellFormed = true := by
    simp only [PathText.wellFormed, Bool.and_eq_true] at hp
    exact PathText.wellFormed_leading hp.1 hp.2 ht
  have hfuel : (PathText.leading p.first p.rest t).depth + 1 ≤
      grammarFuel ("import " ++ p.spelling ++ "/" ++ t.spelling ++ ";\n") := by
    have := TreeText.depth_le _ hlead
    simp only [PathText.spelling_leading, String.length_append] at this
    simp only [grammarFuel, PathText.spelling, String.length_append]
    omega
  obtain ⟨span, h⟩ := Grammar.parses_globalItem_tree ht hp hfuel
    (c := Cursor.start _) (List.append_nil _).symm rfl
  exact ⟨span, Grammar.parses_topLevel_single h⟩

/-- **The two import spellings agree.** For every written tree `T` and module path `P` whose last
segment is no file extension (or that has only one), the modules `#import T from P` and
`import P/T;` each hold one import element, and their trees have the same leaves; unless `T` is
itself a path, they are the same tree. -/
theorem importDialects_agree (conds : Conditions) (path : String) (t : TreeText) (p : PathText)
    (ht : t.wellFormed = true) (hp : p.wellFormed = true)
    (hext : 1 < p.segments.length →
      p.segments.getLast? ≠ some "wgsl" ∧ p.segments.getLast? ≠ some "wesl") :
    ∃ n, ∀ budget, n ≤ budget → ∃ m₁ m₂ span₁ span₂ tree₁ tree₂,
      parseModule ("#import " ++ t.spelling ++ " from " ++ p.spelling ++ "\n") path
        ⟨conds, budget⟩ = .ok m₁ ∧ m₁.elems = #[.importItem span₁ tree₁ .directive] ∧
      parseModule ("import " ++ p.spelling ++ "/" ++ t.spelling ++ ";\n") path
        ⟨conds, budget⟩ = .ok m₂ ∧ m₂.elems = #[.importItem span₂ tree₂ .tree] ∧
      tree₁.leaves = tree₂.leaves ∧ (t.isPath = false → tree₁ = tree₂) := by
  obtain ⟨n₁, h₁⟩ := parseModule_importDirective conds path ht hp hext
  obtain ⟨n₂, h₂⟩ := parseModule_importTree conds path ht hp
  refine ⟨max n₁ n₂, fun budget hb => ?_⟩
  obtain ⟨m₁, span₁, hm₁, he₁⟩ := h₁ budget (Nat.max_le.1 hb).1
  obtain ⟨m₂, span₂, hm₂, he₂⟩ := h₂ budget (Nat.max_le.1 hb).2
  exact ⟨m₁, m₂, span₁, span₂, _, _, hm₁, he₁, hm₂, he₂, TreeText.leaves_withLead_under t p.segments,
    fun hpath => TreeText.withLead_under_of_not_path hpath p.segments⟩

/-- The agreement for a list over two lines after `./lib.util`: an item after `../` with
arguments and a renaming, and a path through `::` to a wildcard. -/
theorem importDialects_agree_lines :
    let t : TreeText := .list .lines (.cons [.up] (.simple "Foo" (some ["T", "4"]) (some "Bar"))
      (.cons [] (.path "a" .colons (.wildcard none)) .nil))
    let p : PathText := ⟨[.here], "lib", [(.dot, "util")]⟩
    t.wellFormed = true ∧ p.wellFormed = true ∧
      (1 < p.segments.length →
        p.segments.getLast? ≠ some "wgsl" ∧ p.segments.getLast? ≠ some "wesl") ∧
      ∃ n, ∀ budget, n ≤ budget → ∃ m₁ m₂ span₁ span₂ tree₁ tree₂,
        parseModule ("#import " ++ t.spelling ++ " from " ++ p.spelling ++ "\n") "m.wesl"
          ⟨⟨[]⟩, budget⟩ = .ok m₁ ∧ m₁.elems = #[.importItem span₁ tree₁ .directive] ∧
        parseModule ("import " ++ p.spelling ++ "/" ++ t.spelling ++ ";\n") "m.wesl"
          ⟨⟨[]⟩, budget⟩ = .ok m₂ ∧ m₂.elems = #[.importItem span₂ tree₂ .tree] ∧
        tree₁.leaves = tree₂.leaves ∧ (t.isPath = false → tree₁ = tree₂) := by
  intro t p
  exact ⟨by decide, by decide, by decide,
    importDialects_agree ⟨[]⟩ "m.wesl" t p (by decide) (by decide) (by decide)⟩

end ShaderLink
