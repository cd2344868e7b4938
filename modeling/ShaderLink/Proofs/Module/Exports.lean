import ShaderLink.Proofs.Module.Layout

/-!
# Which declarations a module exports

A module without any `#export` line or `export` keyword exports all its declarations
(`exportsAll`). Otherwise a declaration is exported when it carries the keyword, or when it is
the first declaration after an `#export` line with no other `#export` line in between; it then
takes that line's parameters. An `#export` line that no declaration takes, because another
`#export` line or the end of the module comes first, is reported once.

Both rules look at the items of a module only through its `#export` lines and declarations,
its *marks*: a declaration takes the `#export` line that is the last mark before it
(`takenExport`), and an `#export` line stays untaken when the first mark after it is not a
declaration (`untakenExports`). `parseModule_exports` shows that the parsed module follows
these rules for the items the grammar reads from its text.

The proof follows `Assembly.build`, which adds the items one at a time and keeps the last
`#export` line that no declaration has taken yet. A declaration adds one declaration element
and takes the pending line (`addItem_decl`); an `#export` line replaces it, reporting the one it
replaces (`addItem_other`). So the pending line is always the last mark so far, and the
declarations follow their items (`foldl_decls`); the warnings are counted forwards, each
`#export` line's fate settled by the mark that follows it (`foldl_warnings`).
-/

namespace ShaderLink

namespace Item

/-- Whether an item takes part in the export rule: an `#export` line or a declaration. -/
def isMark : Item → Bool
  | .exportItem _ _ => true
  | .decl _ => true
  | _ => false

/-- Whether an item asks for explicit exports: an `#export` line, or a declaration carrying
the `export` keyword. -/
def asksExport : Item → Bool
  | .exportItem _ _ => true
  | .decl d => d.exportKeyword.isSome
  | _ => false

/-- The span and the parameters of an `#export` line. -/
def exportLine? : Item → Option (Span × List String)
  | .exportItem params span => some (span, params)
  | _ => none

end Item

/-- The `#export` line that the declaration at index `i` of `items` takes, if any: the last
`#export` line or declaration before it, when that is an `#export` line. -/
def takenExport (items : List Item) (i : Nat) : Option (Span × List String) :=
  (((items.take i).filter Item.isMark).getLast?).bind Item.exportLine?

/-- Whether the first `#export` line or declaration among `items` is a declaration, which then
takes an `#export` line standing just before `items`. -/
def takesPending (items : List Item) : Bool :=
  (((items.filter Item.isMark).head?).bind Item.decl?).isSome

/-- The spans of the `#export` lines that no declaration takes, in order: those after which
another `#export` line, or the end, comes before any declaration. -/
def untakenExports : List Item → List Span
  | [] => []
  | .exportItem _ span :: rest => (if takesPending rest then [] else [span]) ++ untakenExports rest
  | _ :: rest => untakenExports rest

/-- The declarations among `items`, each with its index. -/
def declsWithIndex (items : List Item) : List (Nat × DeclSyntax) :=
  items.zipIdx.filterMap fun p => p.1.decl?.map fun d => (p.2, d)

@[simp] theorem takesPending_nil : takesPending [] = false := rfl

@[simp] theorem takesPending_exportItem (params : List String) (span : Span) (rest : List Item) :
    takesPending (.exportItem params span :: rest) = false := rfl

@[simp] theorem takesPending_decl (d : DeclSyntax) (rest : List Item) :
    takesPending (.decl d :: rest) = true := rfl

/-- Items other than `#export` lines and declarations are passed over. -/
theorem takesPending_cons_of_isMark {item : Item} (h : item.isMark = false) (rest : List Item) :
    takesPending (item :: rest) = takesPending rest := by
  simp [takesPending, h]

theorem untakenExports_cons_of_isMark {item : Item} (h : item.isMark = false) (rest : List Item) :
    untakenExports (item :: rest) = untakenExports rest := by
  cases item <;> simp_all [Item.isMark, untakenExports]

/-! ### One item at a time -/

namespace Assembly

open ScopeTree

/-- The declarations among the elements built so far. -/
def decls (a : Assembly) : List Declaration := a.elems.toList.filterMap Element.asDecl?

/-- The elements that the events of a declaration add are members and references, no
declaration. -/
theorem applyEvents_elems {body : Nat} : ∀ (events : List ScopeEvent) (st : EventState),
    ∃ pushed, (events.foldl (applyEvent body) st).elems.toList = st.elems.toList ++ pushed ∧
      pushed.filterMap Element.asDecl? = []
  | [], st => ⟨[], by simp, rfl⟩
  | e :: events, st => by
    -- one event pushes at most a reference or a member
    have hone : ∃ new, (applyEvent body st e).elems.toList = st.elems.toList ++ new ∧
        new.filterMap Element.asDecl? = [] := by
      cases e with
      | reference path span kind =>
        exact ⟨_, by simp only [applyEvent, Array.toList_push]; rfl, by rfl⟩
      | member name span => exact ⟨[.member name span], by simp [applyEvent], rfl⟩
      | closeBlock =>
        refine ⟨[], ?_, rfl⟩
        simp only [applyEvent]
        split <;> simp
      | declare name span => exact ⟨[], by simp [applyEvent], rfl⟩
      | openBlock => exact ⟨[], by simp [applyEvent], rfl⟩
    obtain ⟨new, hnew, hnd⟩ := hone
    obtain ⟨pushed, hpushed, hpd⟩ := applyEvents_elems events (applyEvent body st e)
    refine ⟨new ++ pushed, by rw [List.foldl_cons, hpushed, hnew, List.append_assoc], ?_⟩
    rw [List.filterMap_append, hnd, hpd, List.append_nil]

/-- Adding a declaration adds one declaration element, with the declaration's name and span
and the export status and parameters asked for. -/
theorem decls_addDecl (a : Assembly) (d : DeclSyntax) (ident : Nat) (exported : Bool)
    (params : List String) :
    ∃ decl : Declaration, (a.addDecl d ident exported params).decls = a.decls ++ [decl] ∧
      decl.name = d.name ∧ decl.span = d.span ∧ decl.exported = exported ∧
      decl.params = params := by
  obtain ⟨st, hst, -, helems⟩ := addDecl_eq a d ident exported params
  obtain ⟨pushed, hpushed, hpd⟩ := @applyEvents_elems a.scopes.scopes.size
    d.events.toList ⟨(a.scopes.pushScope ScopeTree.root .body).1, a.elems.push (.text d.span),
      [a.scopes.scopes.size]⟩
  rw [← hst] at hpushed
  refine ⟨⟨d.kind, d.name, ident, d.nameSpan, d.span, a.scopes.scopes.size, exported, params,
    a.elems.size + 1, st.elems.size⟩, ?_, rfl, rfl, rfl, rfl⟩
  -- the placeholder at the declaration's index is overwritten by the declaration
  rw [decls, decls, helems, Array.set!_eq_setIfInBounds, Array.toList_setIfInBounds, hpushed,
    Array.toList_push, List.append_assoc, List.singleton_append,
    List.set_append_right _ _ (by simp), Array.length_toList, Nat.sub_self, List.set_cons_zero,
    List.filterMap_append, List.filterMap_cons, hpd]
  rfl

@[simp] theorem addDecl_warnings (a : Assembly) (d : DeclSyntax) (ident : Nat) (exported : Bool)
    (params : List String) : (a.addDecl d ident exported params).warnings = a.warnings := rfl

@[simp] theorem addDecl_pendingExport (a : Assembly) (d : DeclSyntax) (ident : Nat)
    (exported : Bool) (params : List String) :
    (a.addDecl d ident exported params).pendingExport = a.pendingExport := rfl

@[simp] theorem addDecl_declIdents (a : Assembly) (d : DeclSyntax) (ident : Nat)
    (exported : Bool) (params : List String) :
    (a.addDecl d ident exported params).declIdents = a.declIdents := rfl

/-- **A declaration item**, with an identifier kept for it: it adds one declaration, exported
when all are, when it carries the keyword, or when an `#export` line is pending, whose
parameters it takes; no line is pending after it, and no warning is added. -/
theorem addItem_decl (exportsAll : Bool) {a : Assembly} {d : DeclSyntax} {ident : Nat}
    {idents : List Nat} (hidents : a.declIdents = ident :: idents) :
    (∃ decl : Declaration, (a.addItem exportsAll (.decl d)).decls = a.decls ++ [decl] ∧
      decl.name = d.name ∧ decl.span = d.span ∧
      decl.exported = (exportsAll || d.exportKeyword.isSome || a.pendingExport.isSome) ∧
      decl.params = (a.pendingExport.map (·.2)).getD []) ∧
    (a.addItem exportsAll (.decl d)).pendingExport = none ∧
    (a.addItem exportsAll (.decl d)).warnings = a.warnings ∧
    (a.addItem exportsAll (.decl d)).declIdents = idents := by
  -- the `export` keyword stands as an export element, which is no declaration
  obtain ⟨b, hb, hdecls, hpending, hwarn, hidents'⟩ : ∃ b : Assembly,
      a.addItem exportsAll (.decl d) = b.addDecl d ident
        (exportsAll || a.pendingExport.isSome || d.exportKeyword.isSome)
        ((a.pendingExport.map (·.2)).getD []) ∧
      b.decls = a.decls ∧ b.pendingExport = none ∧ b.warnings = a.warnings ∧
      b.declIdents = idents := by
    cases hkw : d.exportKeyword <;> simp only [addItem, hidents, hkw] <;>
      exact ⟨_, rfl, by simp [decls, Element.asDecl?], rfl, rfl, rfl⟩
  rw [hb]
  refine ⟨?_, hpending, hwarn, hidents'⟩
  obtain ⟨decl, hdecl, hname, hspan, hexported, hparams⟩ := decls_addDecl b d ident
    (exportsAll || a.pendingExport.isSome || d.exportKeyword.isSome)
    ((a.pendingExport.map (·.2)).getD [])
  refine ⟨decl, by rw [hdecl, hdecls], hname, hspan, ?_, hparams⟩
  rw [hexported, Bool.or_assoc, Bool.or_assoc, Bool.or_comm a.pendingExport.isSome]

/-- **Any other item** adds no declaration and keeps the identifiers; an `#export` line
becomes the pending one, reporting the one it replaces, and the rest keep both. -/
theorem addItem_other (exportsAll : Bool) (a : Assembly) {item : Item}
    (hitem : item.decl? = none) :
    (a.addItem exportsAll item).decls = a.decls ∧
      (a.addItem exportsAll item).declIdents = a.declIdents ∧
      (a.addItem exportsAll item).pendingExport =
        (if item.isMark then item.exportLine? else a.pendingExport) ∧
      (a.addItem exportsAll item).warnings.toList = a.warnings.toList ++
        (if item.isMark then (a.pendingExport.map fun p => unusedExport p.1).toList else []) := by
  cases item with
  | decl d => simp [Item.decl?] at hitem
  | exportItem params span =>
    refine ⟨by simp [addItem, decls, Element.asDecl?], rfl, rfl, ?_⟩
    cases hp : a.pendingExport <;> simp [addItem, hp, Item.isMark]
  | moduleLine path span => exact ⟨by simp [addItem, decls, Element.asDecl?], rfl, rfl, by simp [addItem, Item.isMark]⟩
  | importItem tree dialect span =>
    exact ⟨by simp [addItem, decls, Element.asDecl?], rfl, rfl, by simp [addItem, Item.isMark]⟩
  | text span => exact ⟨by simp [addItem, decls, Element.asDecl?], rfl, rfl, by simp [addItem, Item.isMark]⟩

/-- The warning about the pending `#export` line, if the items after it do not take it. -/
def pendingUnused (pending : Option (Span × List String)) (rest : List Item) :
    List (Span × String) :=
  if takesPending rest then [] else (pending.map fun p => unusedExport p.1).toList

/-- **The warnings of a run.** Adding the items `rest` reports, besides what was reported
before, the pending `#export` line unless `rest` takes it, and each untaken `#export` line of
`rest`; the line still pending at the end is counted as reported. -/
theorem foldl_warnings (exportsAll : Bool) :
    ∀ (rest : List Item) (a : Assembly),
      a.declIdents.length = (rest.filterMap Item.decl?).length →
      (rest.foldl (addItem exportsAll) a).warnings.toList ++
          ((rest.foldl (addItem exportsAll) a).pendingExport.map fun p => unusedExport p.1).toList =
        a.warnings.toList ++ pendingUnused a.pendingExport rest ++
          (untakenExports rest).map unusedExport
  | [], a, _ => by simp [pendingUnused, untakenExports]
  | item :: rest, a, hidents => by
    rw [List.foldl_cons]
    cases hd : item.decl? with
    | some d =>
      -- a declaration takes the pending line
      obtain rfl : item = .decl d := by cases item <;> simp_all [Item.decl?]
      rw [List.filterMap_cons_some hd, List.length_cons] at hidents
      obtain ⟨ident, idents, hids⟩ := List.exists_cons_of_length_eq_add_one hidents
      obtain ⟨-, -, hwarn, hnext⟩ := addItem_decl exportsAll (d := d) hids
      rw [foldl_warnings exportsAll rest _ (by rw [hnext]; simpa [hids] using hidents), hwarn]
      simp [pendingUnused, addItem_decl exportsAll hids, untakenExports]
    | none =>
      obtain ⟨-, hnext, hpending, hwarn⟩ := addItem_other exportsAll a hd
      rw [List.filterMap_cons_none hd] at hidents
      rw [foldl_warnings exportsAll rest _ (by rw [hnext]; exact hidents), hwarn, hpending]
      cases hmark : item.isMark
      · -- an item that is no mark changes nothing
        simp [pendingUnused, takesPending_cons_of_isMark hmark, untakenExports_cons_of_isMark hmark]
      · -- an `#export` line: the pending one is reported, and the line is pending now
        obtain ⟨params, span, rfl⟩ : ∃ params span, item = .exportItem params span := by
          cases item <;> simp_all [Item.isMark, Item.decl?]
        simp only [pendingUnused, untakenExports, Item.exportLine?, takesPending_exportItem,
          if_true, Bool.false_eq_true, if_false, Option.map_some, Option.toList_some,
          List.map_append, List.append_assoc]
        split <;> rfl

/-- How a declaration element follows the declaration at index `p.1` of `items`: same name and
span, exported when all are, when it carries the keyword, or when it takes an `#export` line,
whose parameters it has. -/
def Follows (exportsAll : Bool) (items : List Item) (decl : Declaration)
    (p : Nat × DeclSyntax) : Prop :=
  decl.name = p.2.name ∧ decl.span = p.2.span ∧
    decl.exported = (exportsAll || p.2.exportKeyword.isSome || (takenExport items p.1).isSome) ∧
    decl.params = ((takenExport items p.1).map (·.2)).getD []

/-- The `#export` line pending after the items before index `n + 1` is the item at `n` when
that is a mark, else the one pending before it. -/
theorem takenExport_succ {items pre rest : List Item} {item : Item}
    (h : items = pre ++ item :: rest) :
    takenExport items (pre.length + 1) =
      if item.isMark then item.exportLine? else takenExport items pre.length := by
  subst h
  cases hmark : item.isMark <;>
    simp [takenExport, List.take_append, List.filter_append, hmark,
      List.take_of_length_le (Nat.le_succ pre.length)]

/-- **The declarations of a run.** Adding the items `rest` that follow `pre` in `items`, with
the `#export` line pending that `items` has there and an identifier kept for each declaration,
adds one declaration element for each declaration of `rest`, in order, each following its
item. -/
theorem foldl_decls (exportsAll : Bool) (items : List Item) :
    ∀ (rest pre : List Item) (a : Assembly), items = pre ++ rest →
      a.declIdents.length = (rest.filterMap Item.decl?).length →
      a.pendingExport = takenExport items pre.length →
      ∃ new, (rest.foldl (addItem exportsAll) a).decls = a.decls ++ new ∧
        List.Forall₂ (Follows exportsAll items) new
          ((rest.zipIdx pre.length).filterMap fun p => p.1.decl?.map fun d => (p.2, d))
  | [], _, a, _, _, _ => ⟨[], by simp, by simp⟩
  | item :: rest, pre, a, hsplit, hidents, hpending => by
    rw [List.foldl_cons, List.zipIdx_cons]
    have hsplit' : items = (pre ++ [item]) ++ rest := by simp [hsplit]
    cases hd : item.decl? with
    | some d =>
      -- the declaration takes the pending line, and none is pending after it
      obtain rfl : item = .decl d := by cases item <;> simp_all [Item.decl?]
      rw [List.filterMap_cons_some hd, List.length_cons] at hidents
      obtain ⟨ident, idents, hids⟩ := List.exists_cons_of_length_eq_add_one hidents
      obtain ⟨⟨decl, hdecls, hname, hspan, hexported, hparams⟩, hnone, -, hnext⟩ :=
        addItem_decl exportsAll (d := d) hids
      obtain ⟨new, hnew, hrel⟩ := foldl_decls exportsAll items rest (pre ++ [.decl d]) _ hsplit'
        (by rw [hnext]; simpa [hids] using hidents)
        (by rw [hnone, List.length_append, List.length_singleton, takenExport_succ hsplit]; rfl)
      refine ⟨decl :: new, by rw [hnew, hdecls, List.append_assoc, List.singleton_append], ?_⟩
      rw [List.filterMap_cons_some (b := (pre.length, d)) (by simp [hd])]
      refine .cons ⟨hname, hspan, ?_, ?_⟩ (by simpa using hrel)
      · rw [hexported, hpending]
      · rw [hparams, hpending]
    | none =>
      obtain ⟨hdecls, hnext, hpend, -⟩ := addItem_other exportsAll a hd
      rw [List.filterMap_cons_none hd] at hidents
      obtain ⟨new, hnew, hrel⟩ := foldl_decls exportsAll items rest (pre ++ [item]) _ hsplit'
        (by rw [hnext]; exact hidents)
        (by rw [hpend, List.length_append, List.length_singleton, takenExport_succ hsplit,
          hpending])
      refine ⟨new, by rw [hnew, hdecls], ?_⟩
      rw [List.filterMap_cons_none (by simp [hd])]
      simpa using hrel

/-- A module exports all its declarations exactly when no item asks for explicit exports. -/
theorem exportsAllOf_eq_true_iff (items : List Item) :
    exportsAllOf items = true ↔ ∀ item ∈ items, item.asksExport = false := by
  unfold exportsAllOf
  rw [Bool.not_eq_true', List.any_eq_false]
  refine forall_congr' fun item => imp_congr_right fun _ => ?_
  cases item <;> simp [Item.asksExport]

/-- What `build` does with the elements and the warnings: the items are added in order after
the names are declared, and an `#export` line still pending at the end is reported. -/
theorem build_warnings (items : List Item) (notes : Array (Span × String)) :
    ∃ a : Assembly, a = items.foldl (addItem (exportsAllOf items))
        ⟨#[], (declareAll ScopeTree.empty items).1, notes, none, none,
          (declareAll ScopeTree.empty items).2⟩ ∧
      (build items notes).1.elems = a.elems ∧
      (build items notes).1.warnings.toList =
        a.warnings.toList ++ (a.pendingExport.map fun p => unusedExport p.1).toList ∧
      (build items notes).2 = exportsAllOf items := by
  refine ⟨_, rfl, ?_⟩
  simp only [build]
  split
  · next hp => exact ⟨rfl, by simp [hp], trivial⟩
  · next hp => exact ⟨rfl, by simp [hp], trivial⟩

end Assembly

theorem ParsedModule.decls_map_snd (m : ParsedModule) :
    m.decls.map Prod.snd = m.elems.toList.filterMap Element.asDecl? := by
  simp only [ParsedModule.decls, List.map_filterMap, Option.map_map, Function.comp_def,
    Option.map_id']
  conv_rhs => rw [← List.zipIdx_map_fst 0 m.elems.toList]
  rw [List.filterMap_map]
  rfl

open Assembly in
/-- **The exports of a parsed module.** For every text that parses, with the items the grammar
reads from it: the module exports all its declarations exactly when no item is an `#export`
line or carries the `export` keyword; its declarations are those of the items, in order, each
exported exactly when all are, when it carries the keyword, or when it is the first declaration
after an `#export` line with no other `#export` line in between, and then with that line's
parameters, else with none; and its warnings are those of the conditions, those of the grammar,
then one for each `#export` line that no declaration takes. -/
theorem parseModule_exports {text path : String} {options : ParseOptions} {m : ParsedModule}
    (h : parseModule text path options = .ok m) :
    ∃ items c, Grammar.topLevel (grammarFuel m.text) options.budget (Cursor.start m.text) =
        .ok items c ∧
      (m.exportsAll = true ↔ ∀ item ∈ items, item.asksExport = false) ∧
      List.Forall₂ (fun (d : Nat × Declaration) (p : Nat × DeclSyntax) =>
          d.2.name = p.2.name ∧ d.2.span = p.2.span ∧
          d.2.exported =
            (m.exportsAll || p.2.exportKeyword.isSome || (takenExport items p.1).isSome) ∧
          d.2.params = ((takenExport items p.1).map (·.2)).getD [])
        m.decls (declsWithIndex items) ∧
      m.warnings = (applyConditions text path options.conditions).warnings ++
        (c.notes.toList ++ (untakenExports items).map fun s =>
          (s, "#export is not followed by a declaration")).map fun n => m.warning n.1.start n.2 := by
  unfold parseModule at h
  dsimp only at h
  split at h
  · cases h
  · next items c hparse =>
    obtain ⟨a, ha, helems, hwarnings, hall⟩ := build_warnings items c.notes
    obtain ⟨-, hidents⟩ := declareAll_spec items ScopeTree.empty
    -- the run from the empty assembly, with the identifiers `declareAll` keeps
    let start : Assembly := ⟨#[], (declareAll ScopeTree.empty items).1, c.notes, none, none,
      (declareAll ScopeTree.empty items).2⟩
    obtain ⟨new, hnew, hrel⟩ := foldl_decls (exportsAllOf items) items items [] start rfl
      hidents.length_eq rfl
    have hwarn := foldl_warnings (exportsAllOf items) items start hidents.length_eq
    rw [← ha] at hnew hwarn
    rcases hb : build items c.notes with ⟨b, exportsAll⟩
    rw [hb] at h helems hwarnings hall
    cases h
    simp only at hall
    subst hall
    refine ⟨items, c, hparse, exportsAllOf_eq_true_iff items, ?_, ?_⟩
    · refine (List.forall₂_map_left_iff (f := Prod.snd)
        (R := Follows (exportsAllOf items) items)).1 ?_
      -- the declarations built are those the run added to none
      have hdecls : b.elems.toList.filterMap Element.asDecl? = new := by
        rw [helems]
        simpa [decls, start] using hnew
      rw [ParsedModule.decls_map_snd, hdecls]
      simpa [declsWithIndex] using hrel
    · simp only [List.append_cancel_left_eq]
      rw [hwarnings, hwarn]
      simp only [start, pendingUnused, Option.map_none, Option.toList_none, ite_self,
        List.append_nil]
      rfl

/-- `f` takes the first `#export` line; the second is followed by a third, which `g` takes
along with its keyword; `h` takes none; the last line ends the module. -/
def exportMarkers : String :=
  "#export(T)\nfn f() \x7b\x7d\n#export\n#export(U)\nexport fn g() \x7b\x7d\nfn h() \x7b\x7d\n#export\n"

set_option maxRecDepth 100000 in
theorem exportMarkers_decls :
    (parseModule exportMarkers "m.wgsl" ⟨⟨[]⟩, defaultBudget⟩).toOption.map
      (fun m => (m.decls.map fun d => (d.2.name, d.2.exported, d.2.params),
        m.warnings.map (·.line))) =
      some ([("f", true, ["T"]), ("g", true, ["U"]), ("h", false, [])], [3, 7]) := by
  decide +kernel

theorem exportMarkers_exports :
    ∃ m, parseModule exportMarkers "m.wgsl" ⟨⟨[]⟩, defaultBudget⟩ = .ok m ∧
      ∃ items c, Grammar.topLevel (grammarFuel m.text) defaultBudget (Cursor.start m.text) =
          .ok items c ∧
        (m.exportsAll = true ↔ ∀ item ∈ items, item.asksExport = false) ∧
        List.Forall₂ (fun (d : Nat × Declaration) (p : Nat × DeclSyntax) =>
            d.2.name = p.2.name ∧ d.2.span = p.2.span ∧
            d.2.exported =
              (m.exportsAll || p.2.exportKeyword.isSome || (takenExport items p.1).isSome) ∧
            d.2.params = ((takenExport items p.1).map (·.2)).getD [])
          m.decls (declsWithIndex items) ∧
        m.warnings = (applyConditions exportMarkers "m.wgsl" ⟨[]⟩).warnings ++
          (c.notes.toList ++ (untakenExports items).map fun s =>
            (s, "#export is not followed by a declaration")).map
            fun n => m.warning n.1.start n.2 := by
  obtain ⟨m, hm, -⟩ := Linker.ok_of_toOption_map exportMarkers_decls
  exact ⟨m, hm, parseModule_exports hm⟩

end ShaderLink
