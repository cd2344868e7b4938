import ShaderLink.Proofs.Parse.Reading
import ShaderLink.Parse.Body

/-!
# Where the events of a declaration lie

A declaration's body is read as a stream of tokens that reports scope events; a reference and
a structure member later become elements of the module, with the span the event carries. This
module shows that these spans lie in the text in source order, ending before the next one
starts (`ScopeEvent.Chained`), and that a whole declaration is laid out in its span: the
elements of its attributes before its name, all others after it (`DeclSyntax.Laid`).

The body rules call one another with one fuel less each time, so their facts are proved
together, for each fuel from the one below (`BodyReads.succ`, `bodyReads`). Two points need
care. A name declared by `let` is held back until the end of its statement, and only
declarations are held back, which never become elements (`ScopeEvent.Quiet`). And a
reference's span starts at the word read before its rule begins, so the rest of a body
continues the events from where that word started (`ScopeEvent.Continues`).
-/

namespace ShaderLink

namespace ScopeEvent

/-- The spans of the elements an event becomes: a reference or a member has one, the other
events none. -/
def spans : ScopeEvent → List Span
  | .reference _ span _ => [span]
  | .member _ span => [span]
  | _ => []

/-- A reference names a path of at least one segment. -/
def Named : ScopeEvent → Prop
  | .reference path _ _ => path ≠ []
  | _ => True

/-- Events whose elements' spans ascend in `t` from `lo` to `hi`, every reference naming a
path. -/
def Chained (t : List Char) (lo hi : Nat) (events : Array ScopeEvent) : Prop :=
  Span.Ascending t lo hi (events.toList.flatMap spans) ∧ ∀ e ∈ events.toList, e.Named

/-- Events that become no element, like the declarations held back to the end of their
statement. -/
def Quiet (events : Array ScopeEvent) : Prop := ∀ e ∈ events.toList, e.spans = [] ∧ e.Named

/-- What the rest of a body does to the events read before it started at `lo`: chained from
any `base` up to `lo`, it gives events chained from `base` up to where it stopped. -/
def Continues (t : List Char) (events : Array ScopeEvent) (lo hi : Nat)
    (r : Array ScopeEvent) : Prop :=
  ∀ base, Chained t base lo events → Chained t base hi r

theorem quiet_empty : Quiet #[] := by simp [Quiet]

theorem Quiet.push_declare {pending : Array ScopeEvent} (h : Quiet pending) (name : String)
    (span : Span) : Quiet (pending.push (.declare name span)) := by
  intro e he
  rw [Array.toList_push, List.mem_append, List.mem_singleton] at he
  rcases he with he | rfl
  · exact h e he
  · exact ⟨rfl, trivial⟩

namespace Chained

variable {t : List Char} {lo mid hi : Nat} {a b : Array ScopeEvent}

theorem empty (h : lo ≤ hi) : Chained t lo hi #[] := ⟨.nil h, by simp⟩

theorem le (h : Chained t lo hi a) : lo ≤ hi := h.1.le

theorem mono_lo {lo' : Nat} (hlo : lo' ≤ lo) (h : Chained t lo hi a) : Chained t lo' hi a :=
  ⟨h.1.mono_lo hlo, h.2⟩

theorem mono_hi {hi' : Nat} (h : Chained t lo hi a) (hhi : hi ≤ hi') : Chained t lo hi' a :=
  ⟨h.1.mono_hi hhi, h.2⟩

theorem append (h₁ : Chained t lo mid a) (h₂ : Chained t mid hi b) :
    Chained t lo hi (a ++ b) := by
  refine ⟨?_, fun e he => ?_⟩
  · rw [Array.toList_append, List.flatMap_append]
    exact h₁.1.append h₂.1
  · rw [Array.toList_append, List.mem_append] at he
    exact he.elim (h₁.2 e) (h₂.2 e)

theorem append_quiet (h : Chained t lo hi a) (hb : Quiet b) : Chained t lo hi (a ++ b) := by
  have hspans : b.toList.flatMap spans = [] := List.flatMap_eq_nil_iff.2 fun e he => (hb e he).1
  refine ⟨?_, fun e he => ?_⟩
  · rw [Array.toList_append, List.flatMap_append, hspans, List.append_nil]
    exact h.1
  · rw [Array.toList_append, List.mem_append] at he
    exact he.elim (h.2 e) fun he => (hb e he).2

theorem push_quiet {e : ScopeEvent} (h : Chained t lo hi a) (he : e.spans = [])
    (hn : e.Named) : Chained t lo hi (a.push e) := by
  rw [Array.push_eq_append]
  refine h.append_quiet fun x hx => ?_
  obtain rfl : x = e := by simpa using hx
  exact ⟨he, hn⟩

theorem push_reference {path : List String} {span : Span} {kind : RefKind}
    (h : Chained t lo mid a) (hspan : span.Within t mid hi) (hpath : path ≠ []) :
    Chained t lo hi (a.push (.reference path span kind)) := by
  rw [Array.push_eq_append]
  exact h.append ⟨by simpa [spans] using Span.Ascending.singleton hspan,
    by simpa [Named] using hpath⟩

theorem push_member {name : String} {span : Span} (h : Chained t lo mid a)
    (hspan : span.Within t mid hi) : Chained t lo hi (a.push (.member name span)) := by
  rw [Array.push_eq_append]
  exact h.append ⟨by simpa [spans] using Span.Ascending.singleton hspan, by simp [Named]⟩

end Chained

end ScopeEvent

namespace Grammar

open ShaderLink.Parser ScopeEvent

variable {α : Type} {t : List Char}

theorem reads_outOfFuel {Q : Nat → Nat → α → Prop} : Reads t outOfFuel Q := by
  intro budget c c' a hc hrun
  cases hrun

theorem hardError_ne_ok {l : String} {budget : Nat} {c c' : Cursor} {a : α} :
    hardError l budget c ≠ .ok a c' := by
  simp [hardError, note, cut, decline]

/-- The stop of the last of some tokens read after a position `s`, or `s` when there are
none, lies between `s` and the end of the tokens. -/
theorem Sequence.lastStop {toks : List Token} {lo hi : Nat}
    (h : Sequence (fun lo hi (tok : Token) => tok.span.Within t lo hi) lo hi toks) {s : Nat}
    (hs : s ≤ lo) (hb : Text.isBoundary t s = true) :
    s ≤ (toks.getLast?.map (·.span.stop)).getD s ∧
      (toks.getLast?.map (·.span.stop)).getD s ≤ hi ∧
      Text.isBoundary t ((toks.getLast?.map (·.span.stop)).getD s) = true := by
  induction h generalizing s with
  | nil => exact ⟨Nat.le_refl _, hs, hb⟩
  | @cons lo mid hi tok toks _ htok _ ih =>
    have hlast : ((tok :: toks).getLast?.map (·.span.stop)).getD s =
        (toks.getLast?.map (·.span.stop)).getD tok.span.stop := by
      cases toks with
      | nil => rfl
      | cons x xs =>
        rw [List.getLast?_cons_cons, List.getLast?_eq_some_getLast (List.cons_ne_nil x xs)]
        rfl
    obtain ⟨h₁, h₂, h₃⟩ := ih htok.stop_le htok.stop_boundary
    rw [hlast]
    exact ⟨by have := htok.lo_le; have := htok.start_le; omega, h₂, h₃⟩

/-- Tokens read as `sep` then a token, each token lies in its own stretch. -/
theorem reads_separated {sep : Parser Token} {p : Parser Token} (hsep : Moves t sep)
    (hp : Reads t p fun lo hi (tok : Token) => tok.span.Within t lo hi) :
    Reads t (sep >>= fun _ => p) fun lo hi (tok : Token) => tok.span.Within t lo hi :=
  (reads_bind hsep fun _ => hp).weaken fun _ _ _ _ ⟨_, _, hle, _, _, hin⟩ => hin.mono hle
    (Nat.le_refl _)

/-- A reference path covers the word it started with and the segments read after it. -/
theorem reads_refPath (first : Token) :
    Reads t (refPath first) fun lo hi r =>
      r.1 ≠ [] ∧ ∀ lo', first.span.Within t lo' lo → r.2.1.Within t lo' hi := by
  intro budget c c' r hc hrun
  obtain ⟨more, c₁, hc₁, hle₁, hseq₁, hrun⟩ :=
    (reads_many (reads_separated (reads_text "::").moves (reads_kind .word))).bind_ok hc hrun
  obtain ⟨⟨dotted, isCall⟩, c₂, hdots, hrun⟩ := bind_eq_ok hrun
  -- the dots after the segments are read for a call only; otherwise the cursor goes back
  split at hdots
  · next dotted' isCall' c₃ hd =>
    obtain ⟨dotted₀, c₄, hc₄, hle₄, hseq₄, hd⟩ :=
      (reads_many (reads_separated (reads_text ".").moves (reads_kind .word))).bind_ok hc₁ hd
    obtain ⟨call, c₅, hc₅, hle₅, -, hd⟩ :=
      (reads_optional (moves_peek (text "("))).bind_ok hc₄ hd
    obtain ⟨hv, rfl⟩ := pure_eq_ok hd
    simp only [Prod.mk.injEq] at hv
    obtain ⟨rfl, rfl⟩ := hv
    have hc₂ : c₂.Aligned t ∧ c₁.pos ≤ c₂.pos ∧ (isCall = true → c₂ = c₅) ∧
        dotted = dotted₀ := by
      split at hdots
      · cases hdots
        exact ⟨hc₅, by omega, fun _ => rfl, rfl⟩
      · next hnot =>
        cases hdots
        exact ⟨hc₁.resetTo _, Nat.le_refl _, fun h => by simp [h] at hnot, rfl⟩
    obtain ⟨hc₂, hle₂, hcall₂, rfl⟩ := hc₂
    dsimp only at hrun
    split at hrun
    · next hcallTrue =>
      obtain ⟨rfl, rfl⟩ := pure_eq_ok hrun
      refine ⟨hc₂, Nat.le_trans hle₁ hle₂, by simp, fun lo' hfirst => ?_⟩
      obtain ⟨hcolon₁, hcolon₂, hcolon₃⟩ :=
        Sequence.lastStop hseq₁ hfirst.stop_le hfirst.stop_boundary
      obtain ⟨hdot₁, hdot₂, hdot₃⟩ := Sequence.lastStop hseq₄ hcolon₂ hcolon₃
      obtain rfl := hcall₂ hcallTrue
      have := hfirst.start_le
      exact ⟨hfirst.lo_le, by simp only; omega, by simp only; omega, hfirst.start_boundary,
        hdot₃⟩
    · obtain ⟨rfl, rfl⟩ := pure_eq_ok hrun
      refine ⟨hc₂, Nat.le_trans hle₁ hle₂, by simp, fun lo' hfirst => ?_⟩
      obtain ⟨hcolon₁, hcolon₂, hcolon₃⟩ :=
        Sequence.lastStop hseq₁ hfirst.stop_le hfirst.stop_boundary
      have := hfirst.start_le
      exact ⟨hfirst.lo_le, by simp only; omega, by simp only; omega, hfirst.start_boundary,
        hcolon₃⟩
  · cases hdots

/-- What reading a body gives at one fuel: the arguments of an attribute and a body up to
its closer give chained events, and the rest of a body continues the events read so far. -/
structure BodyReads (t : List Char) (fuel : Nat) : Prop where
  args : ∀ name, Reads t (attributeArgs fuel name) (Chained t)
  body : ∀ closer mode, Reads t (bodyUntil fuel closer mode) (Chained t)
  rest : ∀ closer mode events pending previous, Quiet pending →
    Reads t (bodyAfter fuel closer mode events pending previous) (Continues t events)

theorem bodyReads_zero : BodyReads t 0 where
  args _ := reads_outOfFuel
  body _ _ := reads_outOfFuel
  rest _ _ _ _ _ _ := reads_outOfFuel

theorem BodyReads.args_succ {fuel : Nat} (ih : BodyReads t fuel) (name : String) :
    Reads t (attributeArgs (fuel + 1) name) (Chained t) := by
  intro budget c c' r hc hrun
  rw [attributeArgs] at hrun
  obtain ⟨o, c₁, hc₁, hle₁, -, hrun⟩ := (reads_optional (reads_text "(")).bind_ok hc hrun
  split at hrun
  · obtain ⟨rfl, rfl⟩ := pure_eq_ok hrun
    exact ⟨hc₁, hle₁, .empty hle₁⟩
  · obtain ⟨events, c₂, hc₂, hle₂, hchain, hrun⟩ := (ih.body _ _).bind_ok hc₁ hrun
    obtain ⟨rfl, rfl⟩ := pure_eq_ok hrun
    refine ⟨hc₂, Nat.le_trans hle₁ hle₂, ?_⟩
    -- only the attributes that take expressions keep their events
    split
    · exact hchain.mono_lo hle₁
    · exact .empty (Nat.le_trans hle₁ hle₂)

theorem BodyReads.body_succ {fuel : Nat} (ih : BodyReads t fuel) (closer : String)
    (mode : Mode) : Reads t (bodyUntil (fuel + 1) closer mode) (Chained t) := by
  intro budget c c' r hc hrun
  rw [bodyUntil] at hrun
  obtain ⟨hc', hle, hr⟩ := ih.rest closer mode #[] #[] "" quiet_empty hc hrun
  exact ⟨hc', hle, hr c.pos (.empty (Nat.le_refl _))⟩

/-- One token of a body and what follows it. The token is a closer, which ends the body, or
it is followed by the rest of the body, after some nested rules; each case says how the
events grow before that rest. -/
theorem BodyReads.rest_succ {fuel : Nat} (ih : BodyReads t fuel) (closer : String)
    (mode : Mode) (events pending : Array ScopeEvent) (previous : String) (hq : Quiet pending) :
    Reads t (bodyAfter (fuel + 1) closer mode events pending previous) (Continues t events) := by
  intro budget c c' r hc hrun
  rw [bodyAfter] at hrun
  obtain ⟨tok, c₁, hc₁, hle₁, htokIn, hrun⟩ := (reads_commit reads_anyToken).bind_ok hc hrun
  -- every case but the closer ends in the rest of the body, with events continued from
  -- the start of the token
  have next : ∀ {events' pending' : Array ScopeEvent} {c₂ : Cursor}, c₂.Aligned t →
      c₁.pos ≤ c₂.pos → Quiet pending' → Continues t events c.pos c₂.pos events' →
      bodyAfter fuel closer mode events' pending' tok.text budget c₂ = .ok r c' →
      c'.Aligned t ∧ c.pos ≤ c'.pos ∧ Continues t events c.pos c'.pos r := by
    intro events' pending' c₂ hc₂ hle₂ hq' hcont hrun
    obtain ⟨hc', hle', hr⟩ := ih.rest closer mode events' pending' tok.text hq' hc₂ hrun
    exact ⟨hc', by omega, fun base hb => hr base (hcont base hb)⟩
  dsimp only at hrun
  cases hkind : tok.kind
  case symbol =>
    simp only [hkind] at hrun
    split at hrun
    · -- the closer: the held-back declarations take effect
      obtain ⟨rfl, rfl⟩ := pure_eq_ok hrun
      exact ⟨hc₁, hle₁, fun base hb => (hb.mono_hi hle₁).append_quiet hq⟩
    split at hrun
    · -- `;` ends a statement
      exact next hc₁ (Nat.le_refl _) quiet_empty
        (fun base hb => (hb.mono_hi hle₁).append_quiet hq) hrun
    split at hrun
    · -- `{` opens a block
      obtain ⟨inner, c₂, hc₂, hle₂, hchain, hrun⟩ := (ih.body _ _).bind_ok hc₁ hrun
      refine next hc₂ hle₂ hq (fun base hb => ?_) hrun
      exact (((hb.mono_hi hle₁).push_quiet (e := .openBlock) rfl trivial).append
        hchain).push_quiet rfl trivial
    split at hrun
    · -- `(`
      obtain ⟨inner, c₂, hc₂, hle₂, hchain, hrun⟩ := (ih.body _ _).bind_ok hc₁ hrun
      exact next hc₂ hle₂ hq (fun base hb => (hb.mono_hi hle₁).append hchain) hrun
    split at hrun
    · -- `[`
      obtain ⟨inner, c₂, hc₂, hle₂, hchain, hrun⟩ := (ih.body _ _).bind_ok hc₁ hrun
      exact next hc₂ hle₂ hq (fun base hb => (hb.mono_hi hle₁).append hchain) hrun
    split at hrun
    · exact absurd hrun hardError_ne_ok
    split at hrun
    · -- an attribute
      obtain ⟨name, c₂, hc₂, hle₂, -, hrun⟩ := (reads_commit (reads_kind .word)).bind_ok hc₁ hrun
      obtain ⟨inner, c₃, hc₃, hle₃, hchain, hrun⟩ := (ih.args _).bind_ok hc₂ hrun
      exact next hc₃ (Nat.le_trans hle₂ hle₃) hq
        (fun base hb => (hb.mono_hi (Nat.le_trans hle₁ hle₂)).append hchain) hrun
    split at hrun
    · -- a member access
      obtain ⟨member, c₂, hc₂, hle₂, -, hrun⟩ :=
        (reads_optional (reads_kind .word)).bind_ok hc₁ hrun
      exact next hc₂ hle₂ hq (fun base hb => hb.mono_hi (Nat.le_trans hle₁ hle₂)) hrun
    · exact next hc₁ (Nat.le_refl _) hq (fun base hb => hb.mono_hi hle₁) hrun
  case word =>
    simp only [hkind] at hrun
    split at hrun
    · -- `for` opens a block around its header and body
      obtain ⟨u, c₂, hc₂, hle₂, -, hrun⟩ := (reads_commit (reads_text "(")).bind_ok hc₁ hrun
      obtain ⟨header, c₃, hc₃, hle₃, hchain₃, hrun⟩ := (ih.body _ _).bind_ok hc₂ hrun
      obtain ⟨u, c₄, hc₄, hle₄, -, hrun⟩ := (reads_commit (reads_text "\x7b")).bind_ok hc₃ hrun
      obtain ⟨body, c₅, hc₅, hle₅, hchain₅, hrun⟩ := (ih.body _ _).bind_ok hc₄ hrun
      refine next hc₅ (by omega) hq (fun base hb => ?_) hrun
      have hb₂ := ((hb.mono_hi (Nat.le_trans hle₁ hle₂)).push_quiet (e := .openBlock) rfl
        trivial).append hchain₃
      exact ((hb₂.append (hchain₅.mono_lo hle₄)).push_quiet rfl trivial)
    split at hrun
    · -- `let`, `var` or `const`: the name is held back to the end of the statement
      obtain ⟨o, c₂, hc₂, hle₂, -, hrun⟩ :=
        (reads_optional (reads_bind (reads_text "<") fun _ => ih.body ">" .code)).bind_ok hc₁ hrun
      obtain ⟨name, c₃, hc₃, hle₃, -, hrun⟩ := (reads_commit reads_ident).bind_ok hc₂ hrun
      exact next hc₃ (Nat.le_trans hle₂ hle₃) (hq.push_declare _ _)
        (fun base hb => hb.mono_hi (by omega)) hrun
    split at hrun
    · exact next hc₁ (Nat.le_refl _) hq (fun base hb => hb.mono_hi hle₁) hrun
    -- a name: a parameter in a parameter list when `:` follows, else a reference
    have reference : ∀ {c₂ : Cursor}, c₂.Aligned t → c₁.pos ≤ c₂.pos →
        (refPath tok >>= fun ref => bodyAfter fuel closer mode
            (events.push (.reference ref.1 ref.2.1
              (if ref.2.2 then RefKind.call else refKindAfter previous))) pending tok.text)
          budget c₂ = .ok r c' →
        c'.Aligned t ∧ c.pos ≤ c'.pos ∧ Continues t events c.pos c'.pos r := by
      intro c₂ hc₂ hle₂ hrun
      obtain ⟨⟨path, span, isCall⟩, c₃, hc₃, hle₃, ⟨hne, hspan⟩, hrun⟩ :=
        (reads_refPath tok).bind_ok hc₂ hrun
      exact next hc₃ (Nat.le_trans hle₂ hle₃) hq (fun base hb => hb.push_reference
        (hspan c.pos (htokIn.mono (Nat.le_refl _) hle₂)) hne) hrun
    split at hrun
    · obtain ⟨o, c₂, hc₂, hle₂, -, hrun⟩ :=
        (reads_optional (moves_peek (text ":"))).bind_ok hc₁ hrun
      split at hrun
      · refine next hc₂ hle₂ hq (fun base hb => ?_) hrun
        exact (hb.mono_hi (Nat.le_trans hle₁ hle₂)).push_quiet rfl trivial
      · exact reference hc₂ hle₂ hrun
    · exact reference hc₁ (Nat.le_refl _) hrun
  -- any other token is passed over
  all_goals
    simp only [hkind] at hrun
    exact next hc₁ (Nat.le_refl _) hq (fun base hb => hb.mono_hi hle₁) hrun

theorem BodyReads.succ {fuel : Nat} (ih : BodyReads t fuel) : BodyReads t (fuel + 1) where
  args := ih.args_succ
  body := ih.body_succ
  rest := ih.rest_succ

/-- Whatever the fuel, the body rules read their text forward with chained events. -/
theorem bodyReads : ∀ fuel, BodyReads t fuel
  | 0 => bodyReads_zero
  | fuel + 1 => (bodyReads fuel).succ

/-! ### Attributes, structure members and declarations -/

/-- Chained events read one after another, appended in order, stay chained. -/
theorem Sequence.foldl_chained {lo hi : Nat} {all : List (Array ScopeEvent)}
    (h : Sequence (Chained t) lo hi all) {base : Nat} {acc : Array ScopeEvent}
    (hacc : Chained t base lo acc) : Chained t base hi (all.foldl (· ++ ·) acc) := by
  induction h generalizing acc with
  | nil => exact hacc
  | cons _ hq _ ih => exact ih (hacc.append hq)

theorem reads_attributeItem (fuel : Nat) : Reads t (attributeItem fuel) (Chained t) := by
  intro budget c c' r hc hrun
  obtain ⟨_, c₁, hc₁, hle₁, -, hrun⟩ := (reads_text "@").bind_ok hc hrun
  obtain ⟨_, c₂, hc₂, hle₂, -, hrun⟩ := (reads_commit (reads_kind .word)).bind_ok hc₁ hrun
  obtain ⟨hc', hle', hchain⟩ := (bodyReads fuel).args _ hc₂ hrun
  exact ⟨hc', by omega, hchain.mono_lo (by omega)⟩

theorem reads_attributes (fuel : Nat) : Reads t (attributes fuel) (Chained t) := by
  intro budget c c' r hc hrun
  obtain ⟨all, c₁, hc₁, hle₁, hseq, hrun⟩ := (reads_many (reads_attributeItem fuel)).bind_ok hc hrun
  obtain ⟨rfl, rfl⟩ := pure_eq_ok hrun
  exact ⟨hc₁, hle₁, Sequence.foldl_chained hseq (.empty (Nat.le_refl _))⟩

/-- The type of a structure member continues the events with its references. -/
theorem reads_memberType : ∀ fuel depth events,
    Reads t (memberType fuel depth events) (Continues t events)
  | 0, _, _ => reads_outOfFuel
  | fuel + 1, depth, events => by
    intro budget c c' r hc hrun
    rw [memberType] at hrun
    dsimp only at hrun
    split at hrun
    · cases hrun
    · next tok c₁ htok =>
      obtain ⟨hc₁, hle₁, htokIn⟩ := reads_commit reads_anyToken hc htok
      have next : ∀ {events' : Array ScopeEvent} {c₂ : Cursor} {depth' : Nat}, c₂.Aligned t →
          c₁.pos ≤ c₂.pos → Continues t events c.pos c₂.pos events' →
          memberType fuel depth' events' budget c₂ = .ok r c' →
          c'.Aligned t ∧ c.pos ≤ c'.pos ∧ Continues t events c.pos c'.pos r := by
        intro events' c₂ depth' hc₂ hle₂ hcont hrun
        obtain ⟨hc', hle', hr⟩ := reads_memberType fuel depth' events' hc₂ hrun
        exact ⟨hc', by omega, fun base hb => hr base (hcont base hb)⟩
      split at hrun
      · exact next hc₁ (Nat.le_refl _) (fun base hb => hb.mono_hi hle₁) hrun
      split at hrun
      · exact next hc₁ (Nat.le_refl _) (fun base hb => hb.mono_hi hle₁) hrun
      split at hrun
      · -- `,` ends the member
        cases hrun
        exact ⟨hc₁, hle₁, fun base hb => hb.mono_hi hle₁⟩
      split at hrun
      · -- `}` ends the structure and is left unread
        cases hrun
        exact ⟨hc.resetTo _, Nat.le_refl _, fun base hb => hb⟩
      split at hrun
      · obtain ⟨inner, c₂, hc₂, hle₂, hchain, hrun⟩ := ((bodyReads fuel).body _ _).bind_ok hc₁ hrun
        exact next hc₂ hle₂ (fun base hb => (hb.mono_hi hle₁).append hchain) hrun
      split at hrun
      · -- a type name
        obtain ⟨⟨path, span, isCall⟩, c₂, hc₂, hle₂, ⟨hne, hspan⟩, hrun⟩ :=
          (reads_refPath tok).bind_ok hc₁ hrun
        exact next hc₂ hle₂ (fun base hb => hb.push_reference (hspan c.pos htokIn) hne) hrun
      · exact next hc₁ (Nat.le_refl _) (fun base hb => hb.mono_hi hle₁) hrun

/-- The members of a structure continue the events with each member's attributes, the
member itself and its type. -/
theorem reads_structMembers : ∀ fuel events,
    Reads t (structMembers fuel events) (Continues t events)
  | 0, _ => reads_outOfFuel
  | fuel + 1, events => by
    intro budget c c' r hc hrun
    rw [structMembers] at hrun
    obtain ⟨o, c₁, hc₁, hle₁, -, hrun⟩ := (reads_optional (reads_text "\x7d")).bind_ok hc hrun
    split at hrun
    · obtain ⟨rfl, rfl⟩ := pure_eq_ok hrun
      exact ⟨hc₁, hle₁, fun base hb => hb.mono_hi hle₁⟩
    · obtain ⟨attrs, c₂, hc₂, hle₂, hattrs, hrun⟩ := (reads_attributes fuel).bind_ok hc₁ hrun
      obtain ⟨member, c₃, hc₃, hle₃, hmember, hrun⟩ :=
        (reads_commit (reads_kind .word)).bind_ok hc₂ hrun
      obtain ⟨_, c₄, hc₄, hle₄, -, hrun⟩ := (reads_commit (reads_text ":")).bind_ok hc₃ hrun
      obtain ⟨ty, c₅, hc₅, hle₅, hty, hrun⟩ := (reads_memberType fuel 0 #[]).bind_ok hc₄ hrun
      obtain ⟨hc', hle', hr⟩ := reads_structMembers fuel _ hc₅ hrun
      refine ⟨hc', by omega, fun base hb => hr base ?_⟩
      exact (((hb.mono_hi hle₁).append hattrs).push_member hmember).append
        (hty c₃.pos (.empty hle₄))

/-- A declaration's name and events as its rule reads them from `lo` to `hi`: the name lies
between the two positions and the events after the name. -/
def DeclSyntax.Read (t : List Char) (lo hi : Nat) (d : DeclSyntax) : Prop :=
  d.nameSpan.Within t lo hi ∧ Chained t d.nameSpan.stop hi d.events

theorem reads_function (fuel : Nat) : Reads t (function fuel) (DeclSyntax.Read t) := by
  intro budget c c' d hc hrun
  obtain ⟨_, c₁, hc₁, hle₁, -, hrun⟩ := (reads_text "fn").bind_ok hc hrun
  obtain ⟨name, c₂, hc₂, hle₂, hname, hrun⟩ := (reads_commit reads_ident).bind_ok hc₁ hrun
  obtain ⟨_, c₃, hc₃, hle₃, -, hrun⟩ := (reads_commit (reads_text "(")).bind_ok hc₂ hrun
  obtain ⟨params, c₄, hc₄, hle₄, hparams, hrun⟩ := ((bodyReads fuel).body _ _).bind_ok hc₃ hrun
  obtain ⟨sig, c₅, hc₅, hle₅, hsig, hrun⟩ := ((bodyReads fuel).body _ _).bind_ok hc₄ hrun
  obtain ⟨body, c₆, hc₆, hle₆, hbody, hrun⟩ := ((bodyReads fuel).body _ _).bind_ok hc₅ hrun
  obtain ⟨rfl, rfl⟩ := pure_eq_ok hrun
  exact ⟨hc₆, by omega, hname.mono hle₁ (by omega),
    ((hparams.mono_lo (Nat.le_trans hname.stop_le hle₃)).append hsig).append hbody⟩

theorem reads_structDecl (fuel : Nat) : Reads t (structDecl fuel) (DeclSyntax.Read t) := by
  intro budget c c' d hc hrun
  obtain ⟨_, c₁, hc₁, hle₁, -, hrun⟩ := (reads_text "struct").bind_ok hc hrun
  obtain ⟨name, c₂, hc₂, hle₂, hname, hrun⟩ := (reads_commit reads_ident).bind_ok hc₁ hrun
  obtain ⟨_, c₃, hc₃, hle₃, -, hrun⟩ := (reads_commit (reads_text "\x7b")).bind_ok hc₂ hrun
  obtain ⟨events, c₄, hc₄, hle₄, hevents, hrun⟩ :=
    (reads_structMembers fuel #[]).bind_ok hc₃ hrun
  obtain ⟨rfl, rfl⟩ := pure_eq_ok hrun
  exact ⟨hc₄, by omega, hname.mono hle₁ (by omega),
    hevents name.span.stop (.empty (Nat.le_trans hname.stop_le hle₃))⟩

theorem reads_globalValue (fuel : Nat) : Reads t (globalValue fuel) (DeclSyntax.Read t) := by
  intro budget c c' d hc hrun
  obtain ⟨_, c₁, hc₁, hle₁, -, hrun⟩ := (reads_orElse (reads_text "var")
    (reads_orElse (reads_text "const") (reads_text "override"))).bind_ok hc hrun
  dsimp only at hrun
  obtain ⟨_, c₂, hc₂, hle₂, -, hrun⟩ := (reads_optional (reads_bind (reads_text "<")
    fun _ => (bodyReads fuel).body ">" .code)).bind_ok hc₁ hrun
  obtain ⟨name, c₃, hc₃, hle₃, hname, hrun⟩ := (reads_commit reads_ident).bind_ok hc₂ hrun
  obtain ⟨events, c₄, hc₄, hle₄, hevents, hrun⟩ := ((bodyReads fuel).body _ _).bind_ok hc₃ hrun
  obtain ⟨rfl, rfl⟩ := pure_eq_ok hrun
  exact ⟨hc₄, by omega, hname.mono (by omega) hle₄, hevents.mono_lo hname.stop_le⟩

theorem reads_typeAlias (fuel : Nat) : Reads t (typeAlias fuel) (DeclSyntax.Read t) := by
  intro budget c c' d hc hrun
  obtain ⟨_, c₁, hc₁, hle₁, -, hrun⟩ := (reads_text "alias").bind_ok hc hrun
  obtain ⟨name, c₂, hc₂, hle₂, hname, hrun⟩ := (reads_commit reads_ident).bind_ok hc₁ hrun
  obtain ⟨_, c₃, hc₃, hle₃, -, hrun⟩ := (reads_commit (reads_text "=")).bind_ok hc₂ hrun
  obtain ⟨events, c₄, hc₄, hle₄, hevents, hrun⟩ := ((bodyReads fuel).body _ _).bind_ok hc₃ hrun
  obtain ⟨rfl, rfl⟩ := pure_eq_ok hrun
  exact ⟨hc₄, by omega, hname.mono hle₁ (by omega),
    hevents.mono_lo (Nat.le_trans hname.stop_le hle₃)⟩

end Grammar

/-- A declaration laid out in `t`: its name lies in its span; the elements of its attributes
come before the name and all its other elements after it, all inside the span and in source
order; an `export` keyword in front starts on a boundary before the span. -/
structure DeclSyntax.Laid (t : List Char) (d : DeclSyntax) : Prop where
  name : d.nameSpan.Within t d.span.start d.span.stop
  events : ∃ before after, d.events = before ++ after ∧
    ScopeEvent.Chained t d.span.start d.nameSpan.start before ∧
    ScopeEvent.Chained t d.nameSpan.stop d.span.stop after
  keyword : ∀ kw, d.exportKeyword = some kw →
    kw.start ≤ d.span.start ∧ Text.isBoundary t kw.start = true

namespace Grammar

open ShaderLink.Parser ScopeEvent

variable {t : List Char}

/-- A top-level declaration is laid out in its span, which lies where it was read, after the
`export` keyword if there is one. -/
theorem reads_declaration (fuel : Nat) :
    Reads t (declaration fuel) fun lo hi d =>
      d.Laid t ∧ d.span.Within t lo hi ∧ ∀ kw, d.exportKeyword = some kw → lo ≤ kw.start := by
  intro budget c c' d hc hrun
  simp only [declaration] at hrun
  split at hrun
  · cases hrun
  · next keyword c₁ hkeyword =>
    obtain ⟨hc₁, hle₁, hkw⟩ := reads_optional (reads_spanned (reads_text "export")) hc hkeyword
    split at hrun
    · cases hrun
    · next attrs d₀ span c₂ hbody =>
      simp only [Outcome.ok.injEq] at hrun
      obtain ⟨rfl, rfl⟩ := hrun
      have hread := reads_spanned (reads_bind (reads_attributes fuel) fun attrs =>
        reads_bind (reads_orElse (reads_function fuel) (reads_orElse (reads_structDecl fuel)
          (reads_orElse (reads_globalValue fuel) (reads_typeAlias fuel)))) fun d =>
            reads_pure (Q := fun lo hi r => lo = hi ∧ r = (attrs, d)) fun _ => ⟨rfl, rfl⟩)
          hc₁ hbody
      obtain ⟨hc₂, hle₂, hspan, -, mid, attrs', hmid, -, hattrs, mid', d', hmid', -, hd, rfl, hr⟩ :=
        hread
      simp only [Prod.mk.injEq] at hr
      obtain ⟨rfl, rfl⟩ := hr
      have hspan' : span.Within t c.pos c₂.pos := hspan.mono hle₁ (Nat.le_refl _)
      refine ⟨hc₂, Nat.le_trans hle₁ hle₂, ⟨?_, ?_, ?_⟩, hspan', ?_⟩
      · exact hd.1.mono (by omega) (Nat.le_refl _)
      · exact ⟨attrs, d₀.events, rfl, hattrs.mono_hi (by have := hd.1.lo_le; omega), hd.2⟩
      · intro kw hkw'
        obtain ⟨k, hk, rfl⟩ := Option.map_eq_some_iff.1 hkw'
        obtain ⟨hkIn, -, -⟩ := hkw k hk
        have hbefore : c₁.pos ≤ span.start := hspan.lo_le
        exact ⟨by have := hkIn.stop_le; have := hkIn.start_le; dsimp only; omega,
          hkIn.start_boundary⟩
      · intro kw hkw'
        obtain ⟨k, hk, rfl⟩ := Option.map_eq_some_iff.1 hkw'
        exact (hkw k hk).1.lo_le

end Grammar

end ShaderLink
