import ShaderLink.Proofs.Module.Layout
import ShaderLink.Proofs.Parse.Spelling
import ShaderLink.Proofs.Scope.Binding

/-!
# What a bound reference says

In a parsed module, a reference inside a declaration that `bindAll` bound to a declaration is a
single word: its path has one segment, the name of its identifier and of the declaration it is
bound to, and the text under its span is that name (`parseModule_bound_reference`). So the
linker, which links such a reference to the declaration's instance, finds the reference
already spelled as the declaration's name when that instance keeps the name.

Two facts of the assembly carry it, both kept from one element or identifier to the next:

* every reference element is spelled as its event was (`Element.Spelled`, from
  `Grammar.topLevel_spelled`);
* before `bindAll` no identifier is bound (`ScopeTree.Unbound`), so every binding afterwards
  is one that `bindAll` found: for a reference of one segment, a declaration of its name
  (`ScopeTree.Unbound.bindAll_binding`).
-/

namespace ShaderLink

namespace ScopeTree

/-- No identifier of the tree is bound yet. -/
def Unbound (tree : ScopeTree) : Prop := ∀ x ∈ tree.idents, x.binding = none

variable {tree : ScopeTree}

theorem unbound_empty : empty.Unbound := by simp [Unbound, empty]

theorem Unbound.addIdent (h : tree.Unbound) (scope : Nat) (kind : IdentKind) (name : String)
    (segments : Nat) (span : Span) : (tree.addIdent scope kind name segments span).1.Unbound := by
  intro x hx
  simp only [ScopeTree.addIdent, Array.mem_push] at hx
  rcases hx with hx | rfl
  · exact h x hx
  · rfl

theorem Unbound.pushScope (h : tree.Unbound) (parent : Nat) (kind : ScopeKind) :
    (tree.pushScope parent kind).1.Unbound := h

/-- What the walk outward from a scope finds is a declaration of the name looked for. -/
theorem findDeclFrom_eq_some {name : String} {before : Nat} :
    ∀ {fuel s d : Nat}, tree.findDeclFrom name before fuel s = some d →
      ∃ y, tree.idents[d]? = some y ∧ y.kind = .decl ∧ y.name = name
  | 0, _, _, h => by simp [findDeclFrom] at h
  | fuel + 1, s, d, h => by
    cases hsc : tree.scopes[s]? with
    | none => simp [findDeclFrom, hsc] at h
    | some sc =>
      rw [findDeclFrom_succ hsc] at h
      cases hv : tree.visibleIn sc name before with
      | some d' =>
        rw [hv, Option.some_or] at h
        cases h
        rw [visibleIn_eq] at hv
        obtain ⟨y, hy, hkind, hname, -⟩ := visibleTest_eq_true_iff.1 (List.find?_some hv)
        exact ⟨y, hy, hkind, hname⟩
      | none =>
        rw [hv, Option.none_or] at h
        obtain ⟨p, -, hp⟩ := Option.bind_eq_some_iff.1 h
        exact findDeclFrom_eq_some hp

/-- **Bindings of a tree bound once.** In a tree that nothing had bound before `bindAll`, a
bound identifier is a reference of one segment, bound to a declaration of its name. -/
theorem Unbound.bindAll_binding (hu : tree.Unbound) {i : Nat} {x : Ident}
    (hx : tree.bindAll.idents[i]? = some x) {b : Nat} (hb : x.binding = some b) :
    x.kind = .ref ∧ x.segments = 1 ∧
      ∃ y, tree.bindAll.idents[b]? = some y ∧ y.kind = .decl ∧ y.name = x.name := by
  rw [getElem?_idents_bindAll] at hx
  obtain ⟨x₀, hx₀, rfl⟩ := Option.map_eq_some_iff.1 hx
  have hfree : x₀.binding = none := hu x₀ (Array.mem_of_getElem? hx₀)
  simp only at hb
  -- the binding was found now, since there was none before
  have hnew : x₀.kind = .ref ∧ x₀.segments = 1 ∧ tree.findDecl x₀.scope x₀.name i = some b := by
    unfold bindingOf at hb
    split at hb
    · next hcond =>
      simp only [Bool.and_eq_true, beq_iff_eq] at hcond
      exact ⟨hcond.1.1, hcond.1.2, hb⟩
    · rw [hfree] at hb
      cases hb
  obtain ⟨hkind, hseg, hfind⟩ := hnew
  obtain ⟨y, hy, hykind, hyname⟩ := findDeclFrom_eq_some hfind
  refine ⟨hkind, hseg, { y with binding := tree.bindingOf b y }, ?_, hykind, hyname⟩
  rw [getElem?_idents_bindAll, hy]
  rfl

end ScopeTree

/-- A reference element of one segment is spelled in `t` when the slice of `t` under its span
is its segment; other elements are spelled as they are. -/
def Element.Spelled (t : List Char) : Element → Prop
  | .ref r => ∀ w, r.path = [w] → Text.slice? t r.span.start r.span.stop = some w.toList
  | _ => True

namespace Assembly

open ScopeTree ScopeEvent

variable {t : List Char}

/-- What the assembly keeps: spelled elements and a tree with nothing bound. -/
def Spelled (t : List Char) (elems : Array Element) (scopes : ScopeTree) : Prop :=
  (∀ e ∈ elems.toList, e.Spelled t) ∧ scopes.Unbound

theorem Spelled.push {elems : Array Element} {scopes : ScopeTree} (h : Spelled t elems scopes)
    {e : Element} (he : e.Spelled t) : Spelled t (elems.push e) scopes := by
  refine ⟨fun x hx => ?_, h.2⟩
  rw [Array.toList_push, List.mem_append, List.mem_singleton] at hx
  rcases hx with hx | rfl
  · exact h.1 x hx
  · exact he

/-- One spelled event keeps the state spelled. -/
theorem applyEvent_spelled {body : Nat} {st : EventState} (h : Spelled t st.elems st.scopes)
    {e : ScopeEvent} (he : e.Spelled t) :
    Spelled t (applyEvent body st e).elems (applyEvent body st e).scopes := by
  cases e with
  | declare name span => exact ⟨h.1, h.2.addIdent _ _ _ _ _⟩
  | reference path span kind =>
    simp only [applyEvent]
    exact Spelled.push ⟨h.1, h.2.addIdent _ _ _ _ _⟩ fun w hw => he w hw
  | openBlock => exact ⟨h.1, h.2.pushScope _ _⟩
  | closeBlock =>
    simp only [applyEvent]
    split <;> exact h
  | member name span => exact h.push (by trivial)

theorem applyEvents_spelled {body : Nat} :
    ∀ (events : List ScopeEvent) {st : EventState}, Spelled t st.elems st.scopes →
      (∀ e ∈ events, e.Spelled t) →
      Spelled t (events.foldl (applyEvent body) st).elems (events.foldl (applyEvent body) st).scopes
  | [], _, h, _ => h
  | e :: events, _, h, he =>
    applyEvents_spelled events (applyEvent_spelled h (he e List.mem_cons_self))
      fun e' he' => he e' (List.mem_cons_of_mem _ he')

/-- A declaration with spelled events keeps the assembly spelled: its placeholder is
overwritten by the declaration, which is no reference. -/
theorem addDecl_spelled {a : Assembly} (h : Spelled t a.elems a.scopes) {d : DeclSyntax}
    (hd : Spells t d.events) (ident : Nat) (exported : Bool) (params : List String) :
    Spelled t (a.addDecl d ident exported params).elems (a.addDecl d ident exported params).scopes := by
  obtain ⟨st, hst, hscopes, helems⟩ := addDecl_eq a d ident exported params
  have hstart : Spelled t (a.elems.push (.text d.span)) (a.scopes.pushScope ScopeTree.root .body).1 :=
    ⟨(h.push (e := .text d.span) trivial).1, h.2.pushScope _ _⟩
  have hrun : Spelled t st.elems st.scopes := by
    rw [hst]
    exact applyEvents_spelled d.events.toList hstart hd
  refine ⟨fun x hx => ?_, hscopes ▸ hrun.2⟩
  rw [helems, Array.set!_eq_setIfInBounds, Array.toList_setIfInBounds] at hx
  rcases List.mem_or_eq_of_mem_set hx with hx | rfl
  · exact hrun.1 x hx
  · trivial

/-- A spelled item keeps the assembly spelled. -/
theorem addItem_spelled (exportsAll : Bool) {a : Assembly} (h : Spelled t a.elems a.scopes)
    {item : Item} (hitem : item.Spelled t) :
    Spelled t (a.addItem exportsAll item).elems (a.addItem exportsAll item).scopes := by
  cases item with
  | decl d =>
    simp only [addItem]
    split
    · exact h
    · -- an `export` keyword in front stands as an element of its own
      split
      · exact addDecl_spelled (h.push (by trivial)) hitem _ _ _
      · exact addDecl_spelled h hitem _ _ _
  | moduleLine path span => exact h.push trivial
  | importItem tree dialect span => exact h.push trivial
  | exportItem params span => exact h.push trivial
  | text span => exact h.push trivial

theorem foldl_addItem_spelled (exportsAll : Bool) :
    ∀ (items : List Item) {a : Assembly}, Spelled t a.elems a.scopes →
      (∀ item ∈ items, item.Spelled t) →
      Spelled t (items.foldl (addItem exportsAll) a).elems (items.foldl (addItem exportsAll) a).scopes
  | [], _, h, _ => h
  | item :: items, _, h, hitems =>
    foldl_addItem_spelled exportsAll items (addItem_spelled exportsAll h (hitems item List.mem_cons_self))
      fun item' h' => hitems item' (List.mem_cons_of_mem _ h')

theorem declareAll_unbound : ∀ (items : List Item) {tree : ScopeTree}, tree.Unbound →
    (declareAll tree items).1.Unbound
  | [], _, h => h
  | .decl _ :: items, _, h => declareAll_unbound items (h.addIdent _ _ _ _ _)
  | .moduleLine _ _ :: items, _, h => declareAll_unbound items h
  | .importItem _ _ _ :: items, _, h => declareAll_unbound items h
  | .exportItem _ _ :: items, _, h => declareAll_unbound items h
  | .text _ :: items, _, h => declareAll_unbound items h

/-- **Building.** From spelled items, `build` gives spelled elements and the binding of a tree
in which nothing was bound. -/
theorem build_spelled (notes : Array (Span × String)) {items : List Item}
    (hitems : ∀ item ∈ items, item.Spelled t) :
    (∀ e ∈ (build items notes).1.elems.toList, e.Spelled t) ∧
      ∃ tree : ScopeTree, tree.Unbound ∧ (build items notes).1.scopes = tree.bindAll := by
  obtain ⟨a, ha, helems, hscopes⟩ := build_eq items notes
  have hstart : Spelled t #[] (declareAll ScopeTree.empty items).1 :=
    ⟨by simp, declareAll_unbound items unbound_empty⟩
  have h := foldl_addItem_spelled (exportsAllOf items) items (a := ⟨#[], _, notes, none, none,
    (declareAll ScopeTree.empty items).2⟩) hstart hitems
  rw [← ha] at h
  exact ⟨helems ▸ h.1, a.scopes, h.2, hscopes⟩

end Assembly

namespace ParsedModule

variable {m : ParsedModule}

/-- A reference among a declaration's children is the element at an index of its children. -/
theorem exists_of_mem_references {d : Declaration} {r : Reference} (hr : r ∈ m.references d) :
    ∃ k, d.childStart ≤ k ∧ k < d.childStop ∧ m.elems.toList[k]? = some (.ref r) := by
  unfold references at hr
  obtain ⟨e, he, hre⟩ := List.mem_filterMap.1 hr
  obtain ⟨j, hj⟩ := List.mem_iff_getElem?.1 he
  rw [List.getElem?_take, List.getElem?_drop] at hj
  split at hj
  · next hlt =>
    refine ⟨d.childStart + j, Nat.le_add_right _ _, by omega, ?_⟩
    cases e <;> simp [Element.asRef?] at hre
    subst hre
    exact hj
  · cases hj

end ParsedModule

/-- **Bound references spell their declarations.** In a parsed module, a reference among the
children of a declaration that is bound to a declaration has one segment, the name of its
identifier; the text under its span is that name; and it is bound to a declaration of the
module scope of that name, so every declaration of the module whose identifier it is bound to
has that name. -/
theorem parseModule_bound_reference {text path : String} {options : ParseOptions}
    {m : ParsedModule} (h : parseModule text path options = .ok m) {i : Nat} {d : Declaration}
    (hd : m.elems[i]? = some (.decl d)) {r : Reference} (hr : r ∈ m.references d) {x : Ident}
    (hx : m.scopes.idents[r.ident]? = some x) {b : Nat} (hb : x.binding = some b) :
    r.path = [x.name] ∧ m.spanText r.span = x.name ∧
      ∀ (j : Nat) (d' : Declaration), m.elems[j]? = some (.decl d') → d'.ident = b →
        d'.name = x.name := by
  unfold parseModule at h
  dsimp only at h
  split at h
  · cases h
  · next items c hparse =>
    obtain ⟨hspans, hlaid⟩ := Grammar.topLevel_laid hparse
    have hbuilt := Assembly.build_laid c.notes hspans hlaid
    obtain ⟨hspelled, tree, hu, htree⟩ := Assembly.build_spelled c.notes (Grammar.topLevel_spelled hparse)
    rcases hbuild : Assembly.build items c.notes with ⟨a, exportsAll⟩
    rw [hbuild] at h hbuilt hspelled htree
    cases h
    simp only at hbuilt hspelled htree hd hx hr ⊢
    rw [← Array.getElem?_toList] at hd
    -- the reference is a child of the declaration, so its identifier is a reference named after
    -- the last segment of its path, with as many segments
    have hdlaid := hbuilt.decls i d hd
    obtain ⟨k, hk₁, hk₂, hk⟩ := ParsedModule.exists_of_mem_references hr
    obtain ⟨hin, -, -⟩ := hdlaid.child k _ (by rw [hdlaid.childStart] at hk₁; omega) hk₂ hk
    obtain ⟨x', hx', -, hlast, hseg, -, -⟩ := hin
    rw [hx] at hx'
    cases hx'
    rw [htree] at hx
    obtain ⟨-, hone, y, hy, -, hyname⟩ := hu.bindAll_binding hx hb
    -- one segment, the identifier's name
    obtain ⟨w, hw⟩ : ∃ w, r.path = [w] := List.length_eq_one_iff.1 (hseg ▸ hone)
    rw [hw, List.getLast?_singleton, Option.some.injEq] at hlast
    subst hlast
    refine ⟨hw, ?_, fun j d' hd' hident => ?_⟩
    · have hslice := hspelled _ (List.mem_of_getElem? hk) x.name hw
      simp [ParsedModule.spanText, Text.sliceString?, hslice]
    · -- the declaration's identifier declares its name
      rw [← Array.getElem?_toList] at hd'
      obtain ⟨y', hy', -, -, hname', -⟩ := (hbuilt.decls j d' hd').ident
      rw [htree, hident, hy, Option.some.injEq] at hy'
      rw [← hname', ← hy', hyname]

end ShaderLink
