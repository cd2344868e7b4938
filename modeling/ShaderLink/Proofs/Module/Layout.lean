import ShaderLink.Proofs.Parse.Items
import ShaderLink.Proofs.Link.Steps

/-!
# The layout of a parsed module

A parsed module lists its elements in source order: the top-level elements (the module line,
imports, exports, pass-through text, declarations), each declaration followed by its
children, the members and references inside it. The linker cuts the module's text at these
spans and renames inside them, so it relies on them being slices of the text, disjoint and
nested as the list says. `ElementsLaid` states that layout, together with what the scope tree
holds for each declaration and reference, and `parseModule_laid` shows that every parsed
module has it.

The proof follows the construction:

* the grammar reads items whose spans ascend through the text (`Grammar.topLevel_laid`);
* `Assembly.build` enters the declarations' names into the module scope first
  (`declareAll_spec`), then adds the items one by one (`Assembly.Inv.addItem`);
* a declaration is added as a placeholder, then the elements of its events, after which the
  placeholder is overwritten by the declaration, which then knows where its children end
  (`ElementsLaid.addDecl`).

Scope trees only grow on the way, keeping every scope's kind and parent and every identifier
but its binding (`ScopeTree.Keeps`), so what was shown of the elements added before stays
true, also after the final binding of references.

The arguments of an attribute are part of a declaration's scope events only when the attribute
takes expressions; `builtinLet_declares_nothing` evaluates a module where a `let` among the
arguments of `@builtin` therefore declares nothing.
-/

namespace ShaderLink

/-! ### Scope trees that grow -/

namespace ScopeTree

/-- Scope `s` is the scope `outer` or a block nested in it through blocks. -/
inductive Nested (t : ScopeTree) (outer : Nat) : Nat → Prop
  | refl : Nested t outer outer
  | block {s p : Nat} {sc : Scope} : t.scopes[s]? = some sc → sc.kind = .block →
      sc.parent = some p → Nested t outer p → Nested t outer s

/-- The tree `t'` keeps what `t` holds: each identifier with all but its binding, each scope
with its kind and parent. -/
structure Keeps (t t' : ScopeTree) : Prop where
  idents : ∀ (i : Nat) (x : Ident), t.idents[i]? = some x →
    ∃ b, t'.idents[i]? = some { x with binding := b }
  scopes : ∀ (s : Nat) (sc : Scope), t.scopes[s]? = some sc →
    ∃ sc', t'.scopes[s]? = some sc' ∧ sc'.kind = sc.kind ∧ sc'.parent = sc.parent

/-- Identifier `i` declares `name` in the module scope, at `span`. -/
def Declares (t : ScopeTree) (i : Nat) (name : String) (span : Span) : Prop :=
  ∃ x, t.idents[i]? = some x ∧ x.kind = .decl ∧ x.scope = root ∧ x.name = name ∧ x.span = span

variable {t t' t'' : ScopeTree}

theorem Keeps.refl (t : ScopeTree) : t.Keeps t :=
  ⟨fun _ x h => ⟨x.binding, h⟩, fun _ sc h => ⟨sc, h, rfl, rfl⟩⟩

theorem Keeps.trans (h₁ : t.Keeps t') (h₂ : t'.Keeps t'') : t.Keeps t'' where
  idents i x hx := by
    obtain ⟨b, hb⟩ := h₁.idents i x hx
    obtain ⟨b', hb'⟩ := h₂.idents i _ hb
    exact ⟨b', hb'⟩
  scopes s sc hs := by
    obtain ⟨sc', hs', hk, hp⟩ := h₁.scopes s sc hs
    obtain ⟨sc'', hs'', hk', hp'⟩ := h₂.scopes s sc' hs'
    exact ⟨sc'', hs'', hk'.trans hk, hp'.trans hp⟩

theorem Nested.keeps {outer s : Nat} (h : t.Nested outer s) (hk : t.Keeps t') :
    t'.Nested outer s := by
  induction h with
  | refl => exact .refl
  | block hs hkind hparent _ ih =>
    obtain ⟨sc', hs', hk', hp'⟩ := hk.scopes _ _ hs
    exact .block hs' (hk'.trans hkind) (hp'.trans hparent) ih

theorem Declares.keeps {i : Nat} {name : String} {span : Span} (h : t.Declares i name span)
    (hk : t.Keeps t') : t'.Declares i name span := by
  obtain ⟨x, hx, hkind, hscope, hname, hspan⟩ := h
  obtain ⟨b, hb⟩ := hk.idents i x hx
  exact ⟨_, hb, hkind, hscope, hname, hspan⟩

theorem keeps_pushScope (t : ScopeTree) (parent : Nat) (kind : ScopeKind) :
    t.Keeps (t.pushScope parent kind).1 where
  idents _ x h := ⟨x.binding, h⟩
  scopes s sc h := by
    have hs : s < t.scopes.size := (Array.getElem?_eq_some_iff.1 h).1
    simp only [pushScope, Array.getElem?_modify, Array.getElem?_push, Nat.ne_of_lt hs,
      if_false, h]
    split
    · exact ⟨_, rfl, rfl, rfl⟩
    · exact ⟨sc, rfl, rfl, rfl⟩

/-- The scope `pushScope` opens has the kind and the parent asked for. -/
theorem pushScope_new (t : ScopeTree) (parent : Nat) (kind : ScopeKind) :
    ∃ sc, (t.pushScope parent kind).1.scopes[(t.pushScope parent kind).2]? = some sc ∧
      sc.kind = kind ∧ sc.parent = some parent := by
  simp only [pushScope, Array.getElem?_modify, Array.getElem?_push_size]
  split
  · exact ⟨_, rfl, rfl, rfl⟩
  · exact ⟨_, rfl, rfl, rfl⟩

theorem keeps_addIdent (t : ScopeTree) (scope : Nat) (kind : IdentKind) (name : String)
    (segments : Nat) (span : Span) : t.Keeps (t.addIdent scope kind name segments span).1 where
  idents i x h := by
    have hi : i < t.idents.size := (Array.getElem?_eq_some_iff.1 h).1
    refine ⟨x.binding, ?_⟩
    simp only [addIdent, Array.getElem?_push, Nat.ne_of_lt hi, if_false]
    exact h
  scopes s sc h := by
    simp only [addIdent, Array.getElem?_modify, h]
    split
    · exact ⟨_, rfl, rfl, rfl⟩
    · exact ⟨sc, rfl, rfl, rfl⟩

/-- The identifier `addIdent` adds is the one asked for, not bound yet. -/
theorem addIdent_new (t : ScopeTree) (scope : Nat) (kind : IdentKind) (name : String)
    (segments : Nat) (span : Span) :
    (t.addIdent scope kind name segments span).1.idents[
        (t.addIdent scope kind name segments span).2]? =
      some ⟨kind, name, segments, span, scope, none⟩ := by
  simp [addIdent]

/-- Binding the references changes bindings only. -/
theorem keeps_bindAll (t : ScopeTree) : t.Keeps t.bindAll where
  idents i x h := ⟨t.bindingOf i x, by simp [bindAll, h]⟩
  scopes _ sc h := ⟨sc, h, rfl, rfl⟩

end ScopeTree

/-! ### The layout -/

namespace Element

/-- Whether an element stands at the top level of a module: all but the members and
references, which stand inside a declaration. -/
def isTopLevel : Element → Bool
  | .member _ _ => false
  | .ref _ => false
  | _ => true

/-- An element inside the body of a declaration whose body scope is `body`: a member, or a
reference whose identifier is a reference named after the last segment of its path, with as
many segments as the path, in `body` or a block nested in it. -/
def InBody (t : ScopeTree) (body : Nat) : Element → Prop
  | .member _ _ => True
  | .ref r => ∃ x, t.idents[r.ident]? = some x ∧ x.kind = .ref ∧ r.path.getLast? = some x.name ∧
      x.segments = r.path.length ∧ x.span = r.span ∧ t.Nested body x.scope
  | _ => False

variable {t t' : ScopeTree} {body : Nat} {e : Element}

theorem InBody.keeps (h : e.InBody t body) (hk : t.Keeps t') : e.InBody t' body := by
  cases e
  case member => trivial
  case ref r =>
    obtain ⟨x, hx, hkind, hname, hseg, hspan, hnested⟩ := h
    obtain ⟨b, hb⟩ := hk.idents _ x hx
    exact ⟨_, hb, hkind, hname, hseg, hspan, hnested.keeps hk⟩
  all_goals simp [InBody] at h

theorem InBody.isTopLevel_eq_false (h : e.InBody t body) : e.isTopLevel = false := by
  cases e <;> simp_all [InBody, isTopLevel]

end Element

/-- The declaration element `d` at index `i` of `elems`, laid out in the text `t`, with its
identifiers in `scopes`. -/
structure Declaration.Laid (t : List Char) (elems : List Element) (scopes : ScopeTree) (i : Nat)
    (d : Declaration) : Prop where
  /-- The children are the elements after the declaration, up to `childStop`. -/
  childStart : d.childStart = i + 1
  lt_childStop : i < d.childStop
  childStop_le : d.childStop ≤ elems.length
  /-- Each child is a member or a reference inside the body; it lies inside the declaration's
  span, apart from its name. -/
  child : ∀ (k : Nat) (e : Element), i < k → k < d.childStop → elems[k]? = some e →
    e.InBody scopes d.scope ∧ d.span.contains e.span = true ∧
      (e.span.stop ≤ d.nameSpan.start ∨ d.nameSpan.stop ≤ e.span.start)
  /-- The children come in source order, each ending before the next starts. -/
  ordered : ∀ (k l : Nat) (a b : Element), i < k → k < l → l < d.childStop → elems[k]? = some a →
    elems[l]? = some b → a.span.stop ≤ b.span.start
  name : d.span.contains d.nameSpan = true
  /-- The name is declared in the module scope. -/
  ident : scopes.Declares d.ident d.name d.nameSpan
  /-- The body scope is a body scope inside the module scope. -/
  body : ∃ sc, scopes.scopes[d.scope]? = some sc ∧ sc.kind = .body ∧
    sc.parent = some ScopeTree.root

/-- The layout of a module's elements in its text `t`, up to the position `hi`, with the
identifiers in `scopes`. -/
structure ElementsLaid (t : List Char) (elems : List Element) (scopes : ScopeTree) (hi : Nat) :
    Prop where
  /-- Every element covers a slice of the text that ends by `hi`. -/
  within : ∀ e ∈ elems, e.span.Within t 0 hi
  /-- The top-level elements come in source order, each ending before the next starts. -/
  topLevel : ∀ (i j : Nat) (a b : Element), i < j → elems[i]? = some a → elems[j]? = some b →
    a.isTopLevel = true → b.isTopLevel = true → a.span.stop ≤ b.span.start
  /-- Every declaration is laid out with its children. -/
  decls : ∀ (i : Nat) (d : Declaration), elems[i]? = some (.decl d) → d.Laid t elems scopes i
  /-- The element after a declaration's children, if any, stands at the top level. -/
  next : ∀ (i : Nat) (d : Declaration) (e : Element), elems[i]? = some (.decl d) →
    elems[d.childStop]? = some e → e.isTopLevel = true

section Layout

variable {t : List Char} {elems : List Element} {scopes scopes' : ScopeTree}

/-- An element of `elems ++ x :: rest` is one of `elems`, or `x`, or one of `rest`. -/
theorem getElem?_append_cons_eq_some {α : Type} {l rest : List α} {x y : α} {j : Nat}
    (h : (l ++ x :: rest)[j]? = some y) :
    (j < l.length ∧ l[j]? = some y) ∨ (j = l.length ∧ y = x) ∨
      (l.length < j ∧ rest[j - l.length - 1]? = some y) := by
  rcases Nat.lt_trichotomy j l.length with hj | rfl | hj
  · rw [List.getElem?_append_left hj] at h
    exact .inl ⟨hj, h⟩
  · rw [List.getElem?_append_right (Nat.le_refl _), Nat.sub_self, List.getElem?_cons_zero] at h
    exact .inr (.inl ⟨rfl, (Option.some.inj h).symm⟩)
  · rw [List.getElem?_append_right (by omega)] at h
    obtain ⟨k, hk⟩ : ∃ k, j - l.length = k + 1 := ⟨j - l.length - 1, by omega⟩
    rw [hk, List.getElem?_cons_succ] at h
    exact .inr (.inr ⟨hj, by rwa [show j - l.length - 1 = k by omega]⟩)

theorem Declaration.Laid.mono {i : Nat} {d : Declaration} (h : d.Laid t elems scopes i)
    {elems' : List Element} (hpre : elems <+: elems') (hk : scopes.Keeps scopes') :
    d.Laid t elems' scopes' i where
  childStart := h.childStart
  lt_childStop := h.lt_childStop
  childStop_le := Nat.le_trans h.childStop_le hpre.length_le
  child k e hik hks he := by
    obtain ⟨rest, rfl⟩ := hpre
    rw [List.getElem?_append_left (by have := h.childStop_le; omega)] at he
    obtain ⟨hin, hcont, hname⟩ := h.child k e hik hks he
    exact ⟨hin.keeps hk, hcont, hname⟩
  ordered k l a b hik hkl hl ha hb := by
    have := h.childStop_le
    obtain ⟨rest, rfl⟩ := hpre
    rw [List.getElem?_append_left (by omega)] at ha hb
    exact h.ordered k l a b hik hkl hl ha hb
  name := h.name
  ident := h.ident.keeps hk
  body := by
    obtain ⟨sc, hsc, hkind, hparent⟩ := h.body
    obtain ⟨sc', hsc', hkind', hparent'⟩ := hk.scopes _ _ hsc
    exact ⟨sc', hsc', hkind'.trans hkind, hparent'.trans hparent⟩

theorem ElementsLaid.empty (t : List Char) (scopes : ScopeTree) : ElementsLaid t [] scopes 0 where
  within := by simp
  topLevel := by simp
  decls := by simp
  next := by simp

theorem ElementsLaid.mono_hi {hi hi' : Nat} (h : ElementsLaid t elems scopes hi)
    (hle : hi ≤ hi') : ElementsLaid t elems scopes hi' :=
  { h with within := fun e he => (h.within e he).mono (Nat.le_refl _) hle }

theorem ElementsLaid.keeps {hi : Nat} (h : ElementsLaid t elems scopes hi)
    (hk : scopes.Keeps scopes') : ElementsLaid t elems scopes' hi :=
  { h with decls := fun i d hd => (h.decls i d hd).mono (List.prefix_refl _) hk }

/-- A top-level element other than a declaration, read from `lo` to `hi` after the elements
so far, added at the end. -/
theorem ElementsLaid.push_top {lo hi : Nat} {e : Element} (h : ElementsLaid t elems scopes lo)
    (htop : e.isTopLevel = true) (hnd : e.asDecl? = none) (hspan : e.span.Within t lo hi) :
    ElementsLaid t (elems ++ [e]) scopes hi where
  within x hx := by
    rcases List.mem_append.1 hx with hx | hx
    · exact (h.within x hx).mono (Nat.le_refl _)
        (Nat.le_trans hspan.lo_le (Nat.le_trans hspan.start_le hspan.stop_le))
    · rw [List.mem_singleton.1 hx]
      exact hspan.mono (Nat.zero_le _) (Nat.le_refl _)
  topLevel i j a b hij ha hb hta htb := by
    rcases getElem?_append_cons_eq_some hb with ⟨hj, hb⟩ | ⟨rfl, rfl⟩ | ⟨hj, hb⟩
    · rw [List.getElem?_append_left (by omega)] at ha
      exact h.topLevel i j a b hij ha hb hta htb
    · rw [List.getElem?_append_left hij] at ha
      exact Nat.le_trans (h.within a (List.mem_of_getElem? ha)).stop_le hspan.lo_le
    · simp at hb
  decls i d hd := by
    rcases getElem?_append_cons_eq_some hd with ⟨_, hd⟩ | ⟨_, rfl⟩ | ⟨_, hd⟩
    · exact (h.decls i d hd).mono (List.prefix_append _ _) (.refl _)
    · simp [Element.asDecl?] at hnd
    · simp at hd
  next i d x hd hx := by
    rcases getElem?_append_cons_eq_some hd with ⟨hi, hd⟩ | ⟨_, rfl⟩ | ⟨_, hd⟩
    · rcases getElem?_append_cons_eq_some hx with ⟨_, hx⟩ | ⟨_, rfl⟩ | ⟨_, hx⟩
      · exact h.next i d x hd hx
      · exact htop
      · simp at hx
    · simp [Element.asDecl?] at hnd
    · simp at hd

/-- A declaration read from `lo` to `hi` after the elements so far, added at the end with the
elements inside it. -/
theorem ElementsLaid.append_decl {lo hi : Nat} {decl : Declaration} {pushed : List Element}
    (h : ElementsLaid t elems scopes lo) (hk : scopes.Keeps scopes')
    (hd : decl.Laid t (elems ++ .decl decl :: pushed) scopes' elems.length)
    (hstop : decl.childStop = elems.length + 1 + pushed.length)
    (hspan : decl.span.Within t lo hi)
    (hpushed : ∀ x ∈ pushed, x.isTopLevel = false ∧ x.span.Within t lo hi) :
    ElementsLaid t (elems ++ .decl decl :: pushed) scopes' hi where
  within x hx := by
    rcases List.mem_append.1 hx with hx | hx
    · exact (h.within x hx).mono (Nat.le_refl _)
        (Nat.le_trans hspan.lo_le (Nat.le_trans hspan.start_le hspan.stop_le))
    rcases List.mem_cons.1 hx with rfl | hx
    · exact hspan.mono (Nat.zero_le _) (Nat.le_refl _)
    · exact (hpushed x hx).2.mono (Nat.zero_le _) (Nat.le_refl _)
  topLevel i j a b hij ha hb hta htb := by
    rcases getElem?_append_cons_eq_some hb with ⟨hj, hb⟩ | ⟨rfl, rfl⟩ | ⟨_, hb⟩
    · rw [List.getElem?_append_left (by omega)] at ha
      exact h.topLevel i j a b hij ha hb hta htb
    · rw [List.getElem?_append_left hij] at ha
      exact Nat.le_trans (h.within a (List.mem_of_getElem? ha)).stop_le hspan.lo_le
    · simp [(hpushed b (List.mem_of_getElem? hb)).1] at htb
  decls i d hdi := by
    rcases getElem?_append_cons_eq_some hdi with ⟨_, hdi⟩ | ⟨rfl, hdd⟩ | ⟨_, hdi⟩
    · exact (h.decls i d hdi).mono (List.prefix_append _ _) hk
    · cases hdd
      exact hd
    · have := (hpushed _ (List.mem_of_getElem? hdi)).1
      simp [Element.isTopLevel] at this
  next i d x hdi hx := by
    rcases getElem?_append_cons_eq_some hdi with ⟨hi, hdi⟩ | ⟨rfl, hdd⟩ | ⟨_, hdi⟩
    · have hstop' := (h.decls i d hdi).childStop_le
      rcases getElem?_append_cons_eq_some hx with ⟨_, hx⟩ | ⟨_, rfl⟩ | ⟨_, _⟩
      · exact h.next i d x hdi hx
      · rfl
      · omega
    · cases hdd
      have : (elems ++ .decl decl :: pushed)[decl.childStop]? = none :=
        List.getElem?_eq_none (by simp [hstop]; omega)
      simp [this] at hx
    · have := (hpushed _ (List.mem_of_getElem? hdi)).1
      simp [Element.isTopLevel] at this

end Layout

/-! ### Building the elements -/

/-- The declaration an item is, if it is one. -/
def Item.decl? : Item → Option DeclSyntax
  | .decl d => some d
  | _ => none

/-- The spans of a declaration's elements: each inside its span and apart from its name, in
source order. -/
theorem DeclSyntax.Laid.spans {t : List Char} {d : DeclSyntax} (h : d.Laid t) :
    (∀ s ∈ d.events.toList.flatMap ScopeEvent.spans, s.Within t d.span.start d.span.stop ∧
      (s.stop ≤ d.nameSpan.start ∨ d.nameSpan.stop ≤ s.start)) ∧
    (d.events.toList.flatMap ScopeEvent.spans).Pairwise fun a b => a.stop ≤ b.start := by
  obtain ⟨before, after, hevents, hbefore, hafter⟩ := h.events
  have hname := h.name
  rw [hevents, Array.toList_append, List.flatMap_append]
  refine ⟨fun s hs => ?_, ?_⟩
  · rcases List.mem_append.1 hs with hs | hs
    · have hin := hbefore.1.within s hs
      exact ⟨hin.mono (Nat.le_refl _) (by have := hname.start_le; have := hname.stop_le; omega),
        .inl hin.stop_le⟩
    · have hin := hafter.1.within s hs
      exact ⟨hin.mono (by have := hname.lo_le; have := hname.start_le; omega) (Nat.le_refl _),
        .inr hin.lo_le⟩
  · exact ((hbefore.1.mono_hi hname.start_le).append hafter.1).pairwise

namespace Assembly

open ScopeTree

/-- One event: the tree keeps what it held, the open scopes stay inside the body, and the
elements grow by the event's own, which lie in the body. -/
theorem applyEvent_spec {body : Nat} {st : EventState} {e : ScopeEvent}
    (hstack : ∀ s ∈ st.stack, st.scopes.Nested body s) (hn : e.Named) :
    st.scopes.Keeps (applyEvent body st e).scopes ∧
      (∀ s ∈ (applyEvent body st e).stack, (applyEvent body st e).scopes.Nested body s) ∧
      ∃ new, (applyEvent body st e).elems.toList = st.elems.toList ++ new ∧
        new.map Element.span = e.spans ∧
        ∀ x ∈ new, x.InBody (applyEvent body st e).scopes body := by
  -- events act in the innermost open scope, the body itself when none is open
  have hcurrent : st.scopes.Nested body (st.stack.headD body) := by
    cases hs : st.stack with
    | nil => exact .refl
    | cons s rest => exact hstack s (by simp [hs])
  cases e with
  | declare name span =>
    have hk := keeps_addIdent st.scopes (st.stack.headD body) .decl name 1 span
    exact ⟨hk, fun s hs => (hstack s hs).keeps hk, [], by simp [applyEvent], rfl, by simp⟩
  | reference path span kind =>
    have hk := keeps_addIdent st.scopes (st.stack.headD body) .ref (path.getLast?.getD "")
      path.length span
    obtain ⟨last, hlast⟩ : ∃ last, path.getLast? = some last :=
      Option.ne_none_iff_exists'.1 (by simpa [ScopeEvent.Named] using hn)
    refine ⟨hk, fun s hs => (hstack s hs).keeps hk,
      [.ref ⟨kind, path, span, st.scopes.idents.size⟩], by simp [applyEvent, ScopeTree.addIdent], rfl, fun x hx => ?_⟩
    rw [List.mem_singleton.1 hx]
    refine ⟨_, addIdent_new _ _ _ _ _ _, rfl, ?_, rfl, rfl, hcurrent.keeps hk⟩
    simp [hlast]
  | openBlock =>
    have hk := keeps_pushScope st.scopes (st.stack.headD body) .block
    obtain ⟨sc, hsc, hkind, hparent⟩ := pushScope_new st.scopes (st.stack.headD body) .block
    refine ⟨hk, fun s hs => ?_, [], by simp [applyEvent], rfl, by simp⟩
    rcases List.mem_cons.1 hs with rfl | hs
    · exact .block hsc hkind hparent (hcurrent.keeps hk)
    · exact (hstack s hs).keeps hk
  | closeBlock =>
    -- closing drops the innermost block, never the body
    have hscopes : (applyEvent body st .closeBlock).scopes = st.scopes := by
      simp only [applyEvent]
      split <;> rfl
    refine ⟨hscopes ▸ .refl _, fun s hs => hscopes ▸ ?_, [], ?_, rfl, by simp⟩
    · simp only [applyEvent] at hs
      split at hs
      · next rest _ hstackEq =>
        exact hstack s (by rw [hstackEq]; exact List.mem_cons_of_mem _ hs)
      · exact hstack s hs
    · simp only [applyEvent]
      split <;> simp
  | member name span =>
    exact ⟨.refl _, hstack, [.member name span], by simp [applyEvent], rfl, by
      simp [Element.InBody]⟩

/-- The events of a declaration, applied in order: the tree keeps what it held, and the
elements grow by the events' own, in order, all inside the body. -/
theorem applyEvents_spec {body : Nat} : ∀ (events : List ScopeEvent) {st : EventState},
    (∀ s ∈ st.stack, st.scopes.Nested body s) → (∀ e ∈ events, e.Named) →
    st.scopes.Keeps (events.foldl (applyEvent body) st).scopes ∧
      ∃ pushed, (events.foldl (applyEvent body) st).elems.toList = st.elems.toList ++ pushed ∧
        pushed.map Element.span = events.flatMap ScopeEvent.spans ∧
        ∀ x ∈ pushed, x.InBody (events.foldl (applyEvent body) st).scopes body
  | [], _, _, _ => ⟨.refl _, [], by simp, rfl, by simp⟩
  | e :: events, st, hstack, hn => by
    obtain ⟨hk₁, hstack₁, new, hnew, hspans₁, hin₁⟩ := applyEvent_spec hstack (hn e (by simp))
    obtain ⟨hk₂, pushed, hpushed, hspans₂, hin₂⟩ :=
      applyEvents_spec events hstack₁ fun e' he' => hn e' (List.mem_cons_of_mem _ he')
    refine ⟨hk₁.trans hk₂, new ++ pushed, ?_, ?_, fun x hx => ?_⟩
    · rw [List.foldl_cons, hpushed, hnew, List.append_assoc]
    · rw [List.map_append, hspans₁, hspans₂, List.flatMap_cons]
    · rcases List.mem_append.1 hx with hx | hx
      · exact (hin₁ x hx).keeps hk₂
      · exact hin₂ x hx

/-- What `addDecl` does: a body scope is opened in the module scope, the events are applied
from there after a placeholder for the declaration, and the placeholder is then overwritten
by the declaration, whose children end where the events' elements end. -/
theorem addDecl_eq (a : Assembly) (d : DeclSyntax) (ident : Nat) (exported : Bool)
    (params : List String) :
    ∃ st : EventState, st = d.events.toList.foldl (applyEvent a.scopes.scopes.size)
        ⟨(a.scopes.pushScope ScopeTree.root .body).1, a.elems.push (.text d.span),
          [a.scopes.scopes.size]⟩ ∧
      (a.addDecl d ident exported params).scopes = st.scopes ∧
      (a.addDecl d ident exported params).elems = st.elems.set! a.elems.size
        (.decl ⟨d.kind, d.name, ident, d.nameSpan, d.span, a.scopes.scopes.size, exported, params,
          a.elems.size + 1, st.elems.size⟩) := by
  refine ⟨_, rfl, ?_, ?_⟩ <;> simp only [Array.foldl_toList] <;> rfl

end Assembly

theorem Span.contains_of_within {t : List Char} {o s : Span} (h : s.Within t o.start o.stop) :
    o.contains s = true := by
  simp [Span.contains, h.lo_le, h.stop_le]

/-- Two entries of a pairwise related list, the earlier one first, are related. -/
theorem pairwise_rel_of_getElem? {α : Type} {R : α → α → Prop} {l : List α} {i j : Nat}
    {a b : α} (h : l.Pairwise R) (ha : l[i]? = some a) (hb : l[j]? = some b) (hij : i < j) :
    R a b := by
  obtain ⟨hi, rfl⟩ := List.getElem?_eq_some_iff.1 ha
  obtain ⟨hj, rfl⟩ := List.getElem?_eq_some_iff.1 hb
  exact List.pairwise_iff_getElem.1 h i j hi hj hij

section Build

open Assembly ScopeTree

variable {t : List Char}

/-- The declaration built from a declaration laid out in `t`, standing after `elems` and
followed by the elements of its events, is laid out over them. -/
theorem Declaration.laid_of_events {elems pushed : List Element} {scopes : ScopeTree}
    {d : DeclSyntax} {decl : Declaration} (hlaid : d.Laid t)
    (hspans : pushed.map Element.span = d.events.toList.flatMap ScopeEvent.spans)
    (hin : ∀ x ∈ pushed, x.InBody scopes decl.scope)
    (hstart : decl.childStart = elems.length + 1)
    (hstop : decl.childStop = elems.length + 1 + pushed.length)
    (hspan : decl.span = d.span) (hname : decl.nameSpan = d.nameSpan)
    (hident : scopes.Declares decl.ident decl.name decl.nameSpan)
    (hbody : ∃ sc, scopes.scopes[decl.scope]? = some sc ∧ sc.kind = .body ∧
      sc.parent = some ScopeTree.root) :
    decl.Laid t (elems ++ .decl decl :: pushed) scopes elems.length := by
  obtain ⟨hinside, hordered⟩ := hlaid.spans
  -- a child's span is one of the events' spans
  have hchild : ∀ (k : Nat) (e : Element), elems.length < k →
      (elems ++ .decl decl :: pushed)[k]? = some e → pushed[k - elems.length - 1]? = some e := by
    intro k e hk he
    rcases getElem?_append_cons_eq_some he with ⟨hk', _⟩ | ⟨hk', _⟩ | ⟨_, he⟩
    · omega
    · omega
    · exact he
  have hspanOf : ∀ (j : Nat) (e : Element), pushed[j]? = some e →
      (d.events.toList.flatMap ScopeEvent.spans)[j]? = some e.span := by
    intro j e he
    rw [← hspans, List.getElem?_map, he]
    rfl
  refine ⟨hstart, by omega, by simp [hstop]; omega, fun k e hk hks he => ?_,
    fun k l a b hk hkl hls ha hb => ?_, ?_, hident, hbody⟩
  · have he' := hchild k e hk he
    obtain ⟨hwithin, hapart⟩ := hinside e.span (List.mem_of_getElem? (hspanOf _ e he'))
    rw [hspan, hname]
    exact ⟨hin e (List.mem_of_getElem? he'), Span.contains_of_within hwithin, hapart⟩
  · have hrel := pairwise_rel_of_getElem? hordered (hspanOf _ a (hchild k a hk ha))
      (hspanOf _ b (hchild l b (by omega) hb)) (by omega)
    exact hrel
  · rw [hspan, hname]
    exact Span.contains_of_within hlaid.name

/-- **Adding a declaration.** A declaration laid out in `t` and read from `lo` to `hi`, after
elements laid out up to `lo`, stands after them with the elements of its events as its
children; the tree keeps what it held. -/
theorem ElementsLaid.addDecl {a : Assembly} {d : DeclSyntax} {ident : Nat} {lo hi : Nat}
    (h : ElementsLaid t a.elems.toList a.scopes lo) (exported : Bool) (params : List String)
    (hlaid : d.Laid t) (hspan : d.span.Within t lo hi)
    (hident : a.scopes.Declares ident d.name d.nameSpan) :
    a.scopes.Keeps (a.addDecl d ident exported params).scopes ∧
      ElementsLaid t (a.addDecl d ident exported params).elems.toList
        (a.addDecl d ident exported params).scopes hi := by
  have hnamed : ∀ e ∈ d.events.toList, e.Named := by
    obtain ⟨before, after, hevents, hbefore, hafter⟩ := hlaid.events
    intro e he
    rw [hevents, Array.toList_append] at he
    exact (List.mem_append.1 he).elim (hbefore.2 e) (hafter.2 e)
  obtain ⟨st, hst, hscopes, helems⟩ := addDecl_eq a d ident exported params
  obtain ⟨hk, pushed, hpushed, hspans, hin⟩ := @applyEvents_spec a.scopes.scopes.size
    d.events.toList ⟨(a.scopes.pushScope ScopeTree.root .body).1,
      a.elems.push (.text d.span), [a.scopes.scopes.size]⟩ (by simp [Nested.refl]) hnamed
  rw [← hst] at hk hpushed hin
  have hk' := (keeps_pushScope a.scopes ScopeTree.root .body).trans hk
  have hsize : st.elems.size = a.elems.toList.length + 1 + pushed.length := by
    rw [← Array.length_toList, hpushed]
    simp only [Array.toList_push, List.length_append, Array.length_toList, List.length_singleton]
  -- the placeholder at the declaration's index is overwritten
  have hlist : (a.addDecl d ident exported params).elems.toList =
      a.elems.toList ++ .decl ⟨d.kind, d.name, ident, d.nameSpan, d.span, a.scopes.scopes.size,
        exported, params, a.elems.size + 1, st.elems.size⟩ :: pushed := by
    rw [helems, Array.set!_eq_setIfInBounds, Array.toList_setIfInBounds, hpushed,
      Array.toList_push, List.append_assoc, List.singleton_append,
      List.set_append_right _ _ (by simp), Array.length_toList, Nat.sub_self, List.set_cons_zero]
  rw [hscopes, hlist]
  refine ⟨hk', h.append_decl hk' ?_ (by simp [hsize]) hspan fun x hx => ?_⟩
  · obtain ⟨sc, hsc, hkind, hparent⟩ := pushScope_new a.scopes ScopeTree.root .body
    obtain ⟨sc', hsc', hkind', hparent'⟩ := hk.scopes _ _ hsc
    exact Declaration.laid_of_events hlaid hspans hin (by simp) (by simp [hsize]) rfl rfl
      (hident.keeps hk') ⟨sc', hsc', hkind'.trans hkind, hparent'.trans hparent⟩
  · obtain ⟨hinside, -⟩ := hlaid.spans
    have hmem : x.span ∈ d.events.toList.flatMap ScopeEvent.spans :=
      hspans ▸ List.mem_map_of_mem hx
    exact ⟨(hin x hx).isTopLevel_eq_false,
      ((hinside _ hmem).1.mono (hspan.lo_le) hspan.stop_le)⟩

/-! ### Adding the items -/

namespace Assembly

/-- What holds once the items before `rest` are added, read up to `lo`: the elements are laid
out up to there, and the identifiers kept for the declarations to come declare their names. -/
structure Inv (t : List Char) (a : Assembly) (lo : Nat) (rest : List Item) : Prop where
  laid : ElementsLaid t a.elems.toList a.scopes lo
  idents : List.Forall₂ (fun i (d : DeclSyntax) => a.scopes.Declares i d.name d.nameSpan)
    a.declIdents (rest.filterMap Item.decl?)

/-- An item other than a declaration adds one top-level element, with the item's span. -/
theorem Inv.push_top {a a' : Assembly} {lo hi : Nat} {item : Item} {rest : List Item}
    {x : Element} (h : Inv t a lo (item :: rest)) (hitem : item.decl? = none)
    (helems : a'.elems = a.elems.push x) (hscopes : a'.scopes = a.scopes)
    (hidents : a'.declIdents = a.declIdents) (htop : x.isTopLevel = true)
    (hnd : x.asDecl? = none) (hspan : x.span.Within t lo hi) : Inv t a' hi rest where
  laid := by
    rw [helems, hscopes, Array.toList_push]
    exact h.laid.push_top htop hnd hspan
  idents := by
    have := h.idents
    rwa [List.filterMap_cons_none hitem, ← hscopes, ← hidents] at this

/-- A declaration added after elements laid out up to `mid`, with the identifier kept for it. -/
theorem Inv.addDecl {b : Assembly} {mid hi : Nat} {d : DeclSyntax} {ident : Nat}
    {rest : List Item} (exported : Bool) (params : List String)
    (hlaid : ElementsLaid t b.elems.toList b.scopes mid) (hd : d.Laid t)
    (hspan : d.span.Within t mid hi) (hident : b.scopes.Declares ident d.name d.nameSpan)
    (hidents : List.Forall₂ (fun i (d : DeclSyntax) => b.scopes.Declares i d.name d.nameSpan)
      b.declIdents (rest.filterMap Item.decl?)) :
    Inv t (b.addDecl d ident exported params) hi rest := by
  obtain ⟨hk, hl⟩ := hlaid.addDecl exported params hd hspan hident
  exact ⟨hl, hidents.imp fun _ _ h => h.keeps hk⟩

/-- **Adding an item.** An item whose spans ascend from `lo` to `hi` keeps the invariant, from
`lo` to `hi`. -/
theorem Inv.addItem (exportsAll : Bool) {a : Assembly} {lo hi : Nat} {item : Item}
    {rest : List Item} (h : Inv t a lo (item :: rest)) (hspans : Span.Ascending t lo hi item.spans)
    (hitem : item.Laid t) : Inv t (a.addItem exportsAll item) hi rest := by
  have hsingle : ∀ span, item.spans = [span] → span.Within t lo hi := fun span hs =>
    hspans.within span (by simp [hs])
  cases item
  case decl d =>
    have hidents := h.idents
    rw [List.filterMap_cons_some (f := Item.decl?) rfl] at hidents
    -- the identifiers kept by `declareAll` run alongside the declarations
    cases hids : a.declIdents with
    | nil => rw [hids] at hidents; cases hidents
    | cons ident idents =>
      rw [hids] at hidents
      cases hidents with
      | cons hhead htail =>
        simp only [Assembly.addItem, hids]
        cases hkw : d.exportKeyword with
        | none =>
          simp only [Item.spans, hkw, Option.map_none, Option.toList_none, List.nil_append]
            at hspans
          exact Inv.addDecl _ _ h.laid hitem (hspans.within _ (by simp)) hhead htail
        | some kw =>
          -- the keyword stands as an export element of its own, before the declaration
          simp only [Item.spans, hkw, Option.map_some, Option.toList_some,
            List.singleton_append] at hspans
          cases hspans with
          | cons hkwSpan hrest =>
            have hlaid := h.laid.push_top (e := .exportItem ⟨kw.start, d.span.start⟩ []) rfl rfl
              hkwSpan
            rw [← Array.toList_push] at hlaid
            exact Inv.addDecl _ _ hlaid hitem (hrest.within _ (by simp)) hhead htail
  -- every other item is one top-level element with the item's one span
  all_goals exact h.push_top rfl rfl rfl rfl rfl rfl (hsingle _ rfl)

/-- The items, added in order, keep the invariant through to the end of their spans. -/
theorem Inv.foldl (exportsAll : Bool) :
    ∀ (items : List Item) {a : Assembly} {lo hi : Nat}, Inv t a lo items →
      Span.Ascending t lo hi (items.flatMap Item.spans) → (∀ item ∈ items, item.Laid t) →
      ElementsLaid t (items.foldl (Assembly.addItem exportsAll) a).elems.toList
        (items.foldl (Assembly.addItem exportsAll) a).scopes hi
  | [], _, _, _, h, hspans, _ => h.laid.mono_hi hspans.le
  | item :: items, _, _, _, h, hspans, hlaid => by
    rw [List.flatMap_cons] at hspans
    obtain ⟨mid, hitem, hrest⟩ := hspans.split_append
    exact Inv.foldl exportsAll items (h.addItem exportsAll hitem (hlaid item (by simp))) hrest
      fun item' hitem' => hlaid item' (List.mem_cons_of_mem _ hitem')

/-- `declareAll` keeps the tree and declares each declaration's name in the module scope, one
identifier for each declaration, in order. -/
theorem declareAll_spec (items : List Item) : ∀ (t : ScopeTree),
    t.Keeps (declareAll t items).1 ∧
      List.Forall₂ (fun i (d : DeclSyntax) => (declareAll t items).1.Declares i d.name d.nameSpan)
        (declareAll t items).2 (items.filterMap Item.decl?) := by
  induction items with
  | nil => exact fun t => ⟨.refl t, .nil⟩
  | cons item items ih =>
    intro t
    cases item
    case decl d =>
      have hk := keeps_addIdent t ScopeTree.root .decl d.name 1 d.nameSpan
      obtain ⟨hk', hrest⟩ := ih (t.addIdent ScopeTree.root .decl d.name 1 d.nameSpan).1
      refine ⟨hk.trans hk', .cons ?_ hrest⟩
      exact Declares.keeps ⟨_, addIdent_new _ _ _ _ _ _, rfl, rfl, rfl, rfl⟩ hk'
    all_goals exact ih t

/-- What `build` does with the elements and the tree: the items are added in order after the
names are declared, and the references are then bound. -/
theorem build_eq (items : List Item) (notes : Array (Span × String)) :
    ∃ a : Assembly, a = items.foldl (addItem (exportsAllOf items))
        ⟨#[], (declareAll ScopeTree.empty items).1, notes, none, none,
          (declareAll ScopeTree.empty items).2⟩ ∧
      (build items notes).1.elems = a.elems ∧ (build items notes).1.scopes = a.scopes.bindAll := by
  refine ⟨_, rfl, ?_⟩
  simp only [build]
  split <;> exact ⟨rfl, rfl⟩

/-- **Building.** Items whose spans ascend through the text up to `hi`, each declaration laid
out, build elements laid out up to `hi`. -/
theorem build_laid (notes : Array (Span × String)) {items : List Item} {hi : Nat}
    (hspans : Span.Ascending t 0 hi (items.flatMap Item.spans))
    (hlaid : ∀ item ∈ items, item.Laid t) :
    ElementsLaid t (build items notes).1.elems.toList (build items notes).1.scopes hi := by
  obtain ⟨-, hidents⟩ := declareAll_spec items ScopeTree.empty
  obtain ⟨a, ha, helems, hscopes⟩ := build_eq items notes
  have hstart : Inv t ⟨#[], (declareAll ScopeTree.empty items).1, notes, none, none,
      (declareAll ScopeTree.empty items).2⟩ 0 items := ⟨ElementsLaid.empty t _, hidents⟩
  have h := Inv.foldl (exportsAllOf items) items hstart hspans hlaid
  rw [← ha] at h
  rw [helems, hscopes]
  exact h.keeps (keeps_bindAll _)

end Assembly

end Build

/-- **The layout of a parsed module.** The elements of every module that parses are laid out
in its text: each covers a slice of it, the top-level elements come in source order, and each
declaration is followed by its members and references, inside its span, apart from its name
and in order, the references' identifiers in its body and its name declared in the module
scope. -/
theorem parseModule_laid {text path : String} {options : ParseOptions} {m : ParsedModule}
    (h : parseModule text path options = .ok m) :
    ElementsLaid m.text.toList m.elems.toList m.scopes (Text.byteSize m.text.toList) := by
  unfold parseModule at h
  dsimp only at h
  split at h
  · cases h
  · next items c hparse =>
    obtain ⟨hspans, hlaid⟩ := Grammar.topLevel_laid hparse
    have hbuilt := Assembly.build_laid c.notes hspans hlaid
    rcases hb : Assembly.build items c.notes with ⟨a, exportsAll⟩
    rw [hb] at h hbuilt
    cases h
    exact hbuilt

/-- A module with an exported function, whose body opens a block, and a structure. -/
def exportedFunction : String :=
  "export fn f(a: T) -> T \x7b let x = a; \x7b return g(x); \x7d \x7d\nstruct S \x7b m: T \x7d\n"

set_option maxRecDepth 100000 in
theorem exportedFunction_elems_size :
    (parseModule exportedFunction "f.wgsl" ⟨⟨[]⟩, defaultBudget⟩).toOption.map
      (fun m => m.elems.size) = some 10 := by
  decide +kernel

theorem exportedFunction_laid :
    ∃ m, parseModule exportedFunction "f.wgsl" ⟨⟨[]⟩, defaultBudget⟩ = .ok m ∧
      ElementsLaid m.text.toList m.elems.toList m.scopes (Text.byteSize m.text.toList) := by
  obtain ⟨m, hm, -⟩ := Linker.ok_of_toOption_map exportedFunction_elems_size
  exact ⟨m, hm, parseModule_laid hm⟩

/-- A `let` among the arguments of `@builtin`, an attribute that takes no expressions, in front
of a function whose body uses the name. -/
def builtinLet : String := "@builtin(let x) fn f() \x7b x; \x7d"

end ShaderLink
