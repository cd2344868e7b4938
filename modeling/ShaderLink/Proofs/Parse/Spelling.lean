import ShaderLink.Proofs.Parse.Items
import ShaderLink.Proofs.Text.Slicing
import ShaderLink.Proofs.Module.Checks

/-!
# References spell their names

A reference of one segment, `foo`, is one word of the text, and the span the grammar gives it
covers exactly that word: the slice of the text under the span is the name the reference
uses. The linker relies on it when it compares the name a reference links to with the text
under the reference, to decide whether the reference needs a rename.

The proof follows the grammar again, as `Declarations` does for positions, with a property
that holds event by event (`ScopeEvent.Spells`):

* a token read from an aligned cursor is the slice of the text under its span
  (`reads_anyToken_spelled`);
* a path of one segment read by `refPath` has the span of the word it started with
  (`refPath_single`);
* the body rules keep their events spelled, at each fuel from the one below
  (`BodySpells.succ`, `bodySpells`), and so do the rules of declarations and of whole
  modules (`topLevel_spelled`).
-/

namespace ShaderLink

/-- A token is spelled in `t` when its text is the slice of `t` under its span. -/
def Token.Spelled (t : List Char) (tok : Token) : Prop :=
  Text.slice? t tok.span.start tok.span.stop = some tok.text.toList

namespace ScopeEvent

/-- A reference of one segment is spelled in `t` when the slice of `t` under its span is its
segment; other events are spelled as they are. -/
def Spelled (t : List Char) : ScopeEvent → Prop
  | .reference path span _ =>
    ∀ w, path = [w] → Text.slice? t span.start span.stop = some w.toList
  | _ => True

/-- Events all spelled in `t`. -/
def Spells (t : List Char) (events : Array ScopeEvent) : Prop :=
  ∀ e ∈ events.toList, e.Spelled t

namespace Spells

variable {t : List Char} {a b : Array ScopeEvent}

theorem empty : Spells t #[] := by simp [Spells]

theorem append (ha : Spells t a) (hb : Spells t b) : Spells t (a ++ b) := by
  intro e he
  rw [Array.toList_append, List.mem_append] at he
  exact he.elim (ha e) (hb e)

theorem push {e : ScopeEvent} (ha : Spells t a) (he : e.Spelled t) : Spells t (a.push e) := by
  intro x hx
  rw [Array.toList_push, List.mem_append, List.mem_singleton] at hx
  rcases hx with hx | rfl
  · exact ha x hx
  · exact he

/-- Spelled groups of events, appended in order to spelled events, stay spelled. -/
theorem foldl_append {all : List (Array ScopeEvent)} (hall : ∀ x ∈ all, Spells t x)
    (ha : Spells t a) : Spells t (all.foldl (· ++ ·) a) := by
  induction all generalizing a with
  | nil => exact ha
  | cons x xs ih =>
    exact ih (fun y hy => hall y (List.mem_cons_of_mem _ hy))
      (ha.append (hall x List.mem_cons_self))

end Spells

end ScopeEvent

namespace Parser

variable {t : List Char}

/-- The token `lexOne` reads from an aligned cursor is the slice under its span. -/
theorem lexOne_spelled {budget : Nat} {c c' : Cursor} {tok : Token} (hc : c.Aligned t)
    (hrun : lexOne budget c = .ok tok c') : tok.Spelled t := by
  simp only [lexOne] at hrun
  split at hrun
  · cases hrun
  · split at hrun
    · cases hrun
    · cases hrun
    · next k n _ =>
      cases hrun
      obtain ⟨pre, ht, hpos⟩ := hc
      -- the lexeme stands between the text before the cursor and the rest after it
      have hsplit : t = pre ++ c.rest.take n ++ c.rest.drop n := by
        rw [List.append_assoc, List.take_append_drop]
        exact ht
      simp only [Token.Spelled, String.toList_ofList]
      rw [← hpos, hsplit]
      exact Text.slice?_middle _ _ _

theorem anyTokenFrom_spelled {budget : Nat} {c c' : Cursor} {tok : Token} (hc : c.Aligned t)
    (hrun : anyTokenFrom budget c = .ok tok c') : tok.Spelled t := by
  rw [anyTokenFrom] at hrun
  split at hrun
  · next tok₁ c₁ hlex =>
    split at hrun
    · exact anyTokenFrom_spelled (reads_lexOne hc hlex).1 hrun
    · cases hrun
      exact lexOne_spelled hc hlex
  · cases hrun
termination_by c.rest.length
decreasing_by exact lexOne_rest_lt ‹_›

theorem reads_anyToken_spelled : Reads t anyToken fun _ _ tok => tok.Spelled t :=
  fun _ _ _ _ hc hrun =>
    ⟨(reads_anyTokenFrom hc hrun).1, (reads_anyTokenFrom hc hrun).2.1, anyTokenFrom_spelled hc hrun⟩

end Parser

namespace Grammar

open ShaderLink.Parser ScopeEvent

variable {t : List Char}

/-- A reference path of one segment is the word it started with, under the word's span. -/
theorem refPath_single {first : Token} {budget : Nat} {c c' : Cursor}
    {r : List String × Span × Bool} (hrun : refPath first budget c = .ok r c') {w : String}
    (hw : r.1 = [w]) : r.2.1 = first.span ∧ first.text = w := by
  obtain ⟨more, c₁, -, hrun⟩ := bind_eq_ok hrun
  obtain ⟨⟨dotted, isCall⟩, c₂, -, hrun⟩ := bind_eq_ok hrun
  dsimp only at hrun
  split at hrun
  · obtain ⟨rfl, -⟩ := pure_eq_ok hrun
    -- one segment: none after `::` and no dotted one
    simp only [List.cons_append, List.cons.injEq, List.append_eq_nil_iff,
      List.map_eq_nil_iff] at hw
    obtain ⟨rfl, rfl, rfl⟩ := hw
    exact ⟨rfl, rfl⟩
  · obtain ⟨rfl, -⟩ := pure_eq_ok hrun
    simp only [List.cons.injEq, List.map_eq_nil_iff] at hw
    obtain ⟨rfl, rfl⟩ := hw
    exact ⟨rfl, rfl⟩

theorem reads_refPath_single (first : Token) :
    Reads t (refPath first) fun _ _ r => ∀ w, r.1 = [w] → r.2.1 = first.span ∧ first.text = w :=
  fun _ _ _ _ hc hrun =>
    ⟨(reads_refPath first hc hrun).1, (reads_refPath first hc hrun).2.1,
      fun _ hw => refPath_single hrun hw⟩

/-- A reference read after a spelled word is spelled. -/
theorem spelled_reference {first : Token} (hfirst : first.Spelled t)
    {r : List String × Span × Bool} (hr : ∀ w, r.1 = [w] → r.2.1 = first.span ∧ first.text = w)
    (kind : RefKind) : (ScopeEvent.reference r.1 r.2.1 kind).Spelled t := by
  intro w hw
  obtain ⟨hspan, htext⟩ := hr w hw
  rw [hspan, ← htext]
  exact hfirst

/-- What reading a body gives at one fuel: spelled events from the arguments of an attribute
and from a body up to its closer, and spelled events from the rest of a body that continues
spelled ones. -/
structure BodySpells (t : List Char) (fuel : Nat) : Prop where
  args : ∀ name, Reads t (attributeArgs fuel name) fun _ _ => Spells t
  body : ∀ closer mode, Reads t (bodyUntil fuel closer mode) fun _ _ => Spells t
  rest : ∀ closer mode events pending previous, Spells t events → Spells t pending →
    Reads t (bodyAfter fuel closer mode events pending previous) fun _ _ => Spells t

theorem bodySpells_zero : BodySpells t 0 where
  args _ := reads_outOfFuel
  body _ _ := reads_outOfFuel
  rest _ _ _ _ _ _ _ := reads_outOfFuel

theorem BodySpells.args_succ {fuel : Nat} (ih : BodySpells t fuel) (name : String) :
    Reads t (attributeArgs (fuel + 1) name) fun _ _ => Spells t := by
  intro budget c c' r hc hrun
  rw [attributeArgs] at hrun
  obtain ⟨o, c₁, hc₁, hle₁, -, hrun⟩ := (reads_optional (reads_text "(")).bind_ok hc hrun
  split at hrun
  · obtain ⟨rfl, rfl⟩ := pure_eq_ok hrun
    exact ⟨hc₁, hle₁, Spells.empty⟩
  · obtain ⟨events, c₂, hc₂, hle₂, hspells, hrun⟩ := (ih.body _ _).bind_ok hc₁ hrun
    obtain ⟨rfl, rfl⟩ := pure_eq_ok hrun
    refine ⟨hc₂, Nat.le_trans hle₁ hle₂, ?_⟩
    split
    · exact hspells
    · exact Spells.empty

theorem BodySpells.body_succ {fuel : Nat} (ih : BodySpells t fuel) (closer : String)
    (mode : Mode) : Reads t (bodyUntil (fuel + 1) closer mode) fun _ _ => Spells t := by
  intro budget c c' r hc hrun
  rw [bodyUntil] at hrun
  exact ih.rest closer mode #[] #[] "" Spells.empty Spells.empty hc hrun

/-- One token of a body and what follows it: every case pushes only spelled events, a
reference among them because its word is a token. -/
theorem BodySpells.rest_succ {fuel : Nat} (ih : BodySpells t fuel) (closer : String)
    (mode : Mode) (events pending : Array ScopeEvent) (previous : String)
    (he : Spells t events) (hp : Spells t pending) :
    Reads t (bodyAfter (fuel + 1) closer mode events pending previous) fun _ _ => Spells t := by
  intro budget c c' r hc hrun
  rw [bodyAfter] at hrun
  obtain ⟨tok, c₁, hc₁, hle₁, htok, hrun⟩ :=
    (reads_commit reads_anyToken_spelled).bind_ok hc hrun
  have next : ∀ {events' pending' : Array ScopeEvent} {c₂ : Cursor}, c₂.Aligned t →
      c.pos ≤ c₂.pos → Spells t events' → Spells t pending' →
      bodyAfter fuel closer mode events' pending' tok.text budget c₂ = .ok r c' →
      c'.Aligned t ∧ c.pos ≤ c'.pos ∧ Spells t r := by
    intro events' pending' c₂ hc₂ hle₂ he' hp' hrun
    obtain ⟨hc', hle', hr⟩ := ih.rest closer mode events' pending' tok.text he' hp' hc₂ hrun
    exact ⟨hc', Nat.le_trans hle₂ hle', hr⟩
  dsimp only at hrun
  cases hkind : tok.kind
  case symbol =>
    simp only [hkind] at hrun
    split at hrun
    · obtain ⟨rfl, rfl⟩ := pure_eq_ok hrun
      exact ⟨hc₁, hle₁, he.append hp⟩
    split at hrun
    · exact next hc₁ hle₁ (he.append hp) Spells.empty hrun
    split at hrun
    · -- `{` opens a block
      obtain ⟨inner, c₂, hc₂, hle₂, hinner, hrun⟩ := (ih.body _ _).bind_ok hc₁ hrun
      refine next hc₂ (by omega) ?_ hp hrun
      exact ((he.push (by trivial)).append hinner).push (by trivial)
    split at hrun
    · obtain ⟨inner, c₂, hc₂, hle₂, hinner, hrun⟩ := (ih.body _ _).bind_ok hc₁ hrun
      exact next hc₂ (by omega) (he.append hinner) hp hrun
    split at hrun
    · obtain ⟨inner, c₂, hc₂, hle₂, hinner, hrun⟩ := (ih.body _ _).bind_ok hc₁ hrun
      exact next hc₂ (by omega) (he.append hinner) hp hrun
    split at hrun
    · exact absurd hrun hardError_ne_ok
    split at hrun
    · -- an attribute
      obtain ⟨name, c₂, hc₂, hle₂, -, hrun⟩ := (reads_commit (reads_kind .word)).bind_ok hc₁ hrun
      obtain ⟨inner, c₃, hc₃, hle₃, hinner, hrun⟩ := (ih.args _).bind_ok hc₂ hrun
      exact next hc₃ (by omega) (he.append hinner) hp hrun
    split at hrun
    · obtain ⟨member, c₂, hc₂, hle₂, -, hrun⟩ :=
        (reads_optional (reads_kind .word)).bind_ok hc₁ hrun
      exact next hc₂ (by omega) he hp hrun
    · exact next hc₁ hle₁ he hp hrun
  case word =>
    simp only [hkind] at hrun
    split at hrun
    · -- `for` opens a block around its header and body
      obtain ⟨u, c₂, hc₂, hle₂, -, hrun⟩ := (reads_commit (reads_text "(")).bind_ok hc₁ hrun
      obtain ⟨header, c₃, hc₃, hle₃, hheader, hrun⟩ := (ih.body _ _).bind_ok hc₂ hrun
      obtain ⟨u, c₄, hc₄, hle₄, -, hrun⟩ := (reads_commit (reads_text "\x7b")).bind_ok hc₃ hrun
      obtain ⟨body, c₅, hc₅, hle₅, hbody, hrun⟩ := (ih.body _ _).bind_ok hc₄ hrun
      refine next hc₅ (by omega) ?_ hp hrun
      exact (((he.push (by trivial)).append hheader).append hbody).push (by trivial)
    split at hrun
    · -- `let`, `var` or `const`: the name is held back to the end of the statement
      obtain ⟨o, c₂, hc₂, hle₂, -, hrun⟩ := (reads_optional (reads_bind (reads_text "<")
        fun _ => (ih.body ">" .code).moves)).bind_ok hc₁ hrun
      obtain ⟨name, c₃, hc₃, hle₃, -, hrun⟩ := (reads_commit reads_ident).bind_ok hc₂ hrun
      refine next hc₃ (by omega) he ?_ hrun
      exact hp.push (by trivial)
    split at hrun
    · exact next hc₁ hle₁ he hp hrun
    -- a name: a parameter in a parameter list when `:` follows, else a reference
    have reference : ∀ {c₂ : Cursor}, c₂.Aligned t → c.pos ≤ c₂.pos →
        (refPath tok >>= fun ref => bodyAfter fuel closer mode
            (events.push (.reference ref.1 ref.2.1
              (if ref.2.2 then RefKind.call else refKindAfter previous))) pending tok.text)
          budget c₂ = .ok r c' →
        c'.Aligned t ∧ c.pos ≤ c'.pos ∧ Spells t r := by
      intro c₂ hc₂ hle₂ hrun
      obtain ⟨ref, c₃, hc₃, hle₃, href, hrun⟩ := (reads_refPath_single tok).bind_ok hc₂ hrun
      exact next hc₃ (by omega) (he.push (spelled_reference htok href _)) hp hrun
    split at hrun
    · obtain ⟨o, c₂, hc₂, hle₂, -, hrun⟩ :=
        (reads_optional (moves_peek (text ":"))).bind_ok hc₁ hrun
      split at hrun
      · refine next hc₂ (by omega) ?_ hp hrun
        exact he.push (by trivial)
      · exact reference hc₂ (by omega) hrun
    · exact reference hc₁ hle₁ hrun
  -- any other token is passed over
  all_goals
    simp only [hkind] at hrun
    exact next hc₁ hle₁ he hp hrun

theorem BodySpells.succ {fuel : Nat} (ih : BodySpells t fuel) : BodySpells t (fuel + 1) where
  args := ih.args_succ
  body := ih.body_succ
  rest := ih.rest_succ

/-- Whatever the fuel, the body rules read spelled events. -/
theorem bodySpells : ∀ fuel, BodySpells t fuel
  | 0 => bodySpells_zero
  | fuel + 1 => (bodySpells fuel).succ

/-! ### Attributes, structure members and declarations -/

theorem reads_attributeItem_spelled (fuel : Nat) :
    Reads t (attributeItem fuel) fun _ _ => Spells t := by
  intro budget c c' r hc hrun
  obtain ⟨_, c₁, hc₁, hle₁, -, hrun⟩ := (reads_text "@").bind_ok hc hrun
  obtain ⟨_, c₂, hc₂, hle₂, -, hrun⟩ := (reads_commit (reads_kind .word)).bind_ok hc₁ hrun
  obtain ⟨hc', hle', hr⟩ := (bodySpells fuel).args _ hc₂ hrun
  exact ⟨hc', by omega, hr⟩

theorem reads_attributes_spelled (fuel : Nat) : Reads t (attributes fuel) fun _ _ => Spells t := by
  intro budget c c' r hc hrun
  obtain ⟨all, c₁, hc₁, hle₁, hseq, hrun⟩ :=
    (reads_many (reads_attributeItem_spelled fuel)).bind_ok hc hrun
  obtain ⟨rfl, rfl⟩ := pure_eq_ok hrun
  refine ⟨hc₁, hle₁, Spells.foldl_append (fun x hx => ?_) Spells.empty⟩
  obtain ⟨_, _, -, -, hx⟩ := hseq.exists_of_mem x hx
  exact hx

/-- The type of a structure member adds spelled references to spelled events. -/
theorem reads_memberType_spelled : ∀ fuel depth events, Spells t events →
    Reads t (memberType fuel depth events) fun _ _ => Spells t
  | 0, _, _, _ => reads_outOfFuel
  | fuel + 1, depth, events, he => by
    intro budget c c' r hc hrun
    rw [memberType] at hrun
    dsimp only at hrun
    split at hrun
    · cases hrun
    · next tok c₁ htok =>
      obtain ⟨hc₁, hle₁, hspelled⟩ := reads_commit reads_anyToken_spelled hc htok
      have next : ∀ {events' : Array ScopeEvent} {c₂ : Cursor} {depth' : Nat}, c₂.Aligned t →
          c.pos ≤ c₂.pos → Spells t events' →
          memberType fuel depth' events' budget c₂ = .ok r c' →
          c'.Aligned t ∧ c.pos ≤ c'.pos ∧ Spells t r := by
        intro events' c₂ depth' hc₂ hle₂ he' hrun
        obtain ⟨hc', hle', hr⟩ := reads_memberType_spelled fuel depth' events' he' hc₂ hrun
        exact ⟨hc', by omega, hr⟩
      split at hrun
      · exact next hc₁ hle₁ he hrun
      split at hrun
      · exact next hc₁ hle₁ he hrun
      split at hrun
      · cases hrun
        exact ⟨hc₁, hle₁, he⟩
      split at hrun
      · cases hrun
        exact ⟨hc.resetTo _, Nat.le_refl _, he⟩
      split at hrun
      · obtain ⟨inner, c₂, hc₂, hle₂, hinner, hrun⟩ :=
          ((bodySpells fuel).body _ _).bind_ok hc₁ hrun
        exact next hc₂ (by omega) (he.append hinner) hrun
      split at hrun
      · -- a type name
        obtain ⟨ref, c₂, hc₂, hle₂, href, hrun⟩ := (reads_refPath_single tok).bind_ok hc₁ hrun
        exact next hc₂ (by omega) (he.push (spelled_reference hspelled href _)) hrun
      · exact next hc₁ hle₁ he hrun

/-- The members of a structure add spelled events: attributes, the member, its type. -/
theorem reads_structMembers_spelled : ∀ fuel events, Spells t events →
    Reads t (structMembers fuel events) fun _ _ => Spells t
  | 0, _, _ => reads_outOfFuel
  | fuel + 1, events, he => by
    intro budget c c' r hc hrun
    rw [structMembers] at hrun
    obtain ⟨o, c₁, hc₁, hle₁, -, hrun⟩ := (reads_optional (reads_text "\x7d")).bind_ok hc hrun
    split at hrun
    · obtain ⟨rfl, rfl⟩ := pure_eq_ok hrun
      exact ⟨hc₁, hle₁, he⟩
    · obtain ⟨attrs, c₂, hc₂, hle₂, hattrs, hrun⟩ :=
        (reads_attributes_spelled fuel).bind_ok hc₁ hrun
      obtain ⟨member, c₃, hc₃, hle₃, -, hrun⟩ :=
        (reads_commit (reads_kind .word)).bind_ok hc₂ hrun
      obtain ⟨_, c₄, hc₄, hle₄, -, hrun⟩ := (reads_commit (reads_text ":")).bind_ok hc₃ hrun
      obtain ⟨ty, c₅, hc₅, hle₅, hty, hrun⟩ :=
        (reads_memberType_spelled fuel 0 #[] Spells.empty).bind_ok hc₄ hrun
      have hmembers : Spells t ((events ++ attrs).push (.member member.text member.span) ++ ty) :=
        ((he.append hattrs).push (by trivial)).append hty
      obtain ⟨hc', hle', hr⟩ := reads_structMembers_spelled fuel _ hmembers hc₅ hrun
      exact ⟨hc', by omega, hr⟩

theorem reads_function_spelled (fuel : Nat) :
    Reads t (function fuel) fun _ _ (d : DeclSyntax) => Spells t d.events := by
  intro budget c c' d hc hrun
  obtain ⟨_, c₁, hc₁, hle₁, -, hrun⟩ := (reads_text "fn").bind_ok hc hrun
  obtain ⟨name, c₂, hc₂, hle₂, -, hrun⟩ := (reads_commit reads_ident).bind_ok hc₁ hrun
  obtain ⟨_, c₃, hc₃, hle₃, -, hrun⟩ := (reads_commit (reads_text "(")).bind_ok hc₂ hrun
  obtain ⟨params, c₄, hc₄, hle₄, hparams, hrun⟩ := ((bodySpells fuel).body _ _).bind_ok hc₃ hrun
  obtain ⟨sig, c₅, hc₅, hle₅, hsig, hrun⟩ := ((bodySpells fuel).body _ _).bind_ok hc₄ hrun
  obtain ⟨body, c₆, hc₆, hle₆, hbody, hrun⟩ := ((bodySpells fuel).body _ _).bind_ok hc₅ hrun
  obtain ⟨rfl, rfl⟩ := pure_eq_ok hrun
  exact ⟨hc₆, by omega, (hparams.append hsig).append hbody⟩

theorem reads_structDecl_spelled (fuel : Nat) :
    Reads t (structDecl fuel) fun _ _ (d : DeclSyntax) => Spells t d.events := by
  intro budget c c' d hc hrun
  obtain ⟨_, c₁, hc₁, hle₁, -, hrun⟩ := (reads_text "struct").bind_ok hc hrun
  obtain ⟨name, c₂, hc₂, hle₂, -, hrun⟩ := (reads_commit reads_ident).bind_ok hc₁ hrun
  obtain ⟨_, c₃, hc₃, hle₃, -, hrun⟩ := (reads_commit (reads_text "\x7b")).bind_ok hc₂ hrun
  obtain ⟨events, c₄, hc₄, hle₄, hevents, hrun⟩ :=
    (reads_structMembers_spelled fuel #[] Spells.empty).bind_ok hc₃ hrun
  obtain ⟨rfl, rfl⟩ := pure_eq_ok hrun
  exact ⟨hc₄, by omega, hevents⟩

theorem reads_globalValue_spelled (fuel : Nat) :
    Reads t (globalValue fuel) fun _ _ (d : DeclSyntax) => Spells t d.events := by
  intro budget c c' d hc hrun
  obtain ⟨_, c₁, hc₁, hle₁, -, hrun⟩ := (reads_orElse (reads_text "var")
    (reads_orElse (reads_text "const") (reads_text "override"))).bind_ok hc hrun
  dsimp only at hrun
  obtain ⟨_, c₂, hc₂, hle₂, -, hrun⟩ := (reads_optional (reads_bind (reads_text "<")
    fun _ => ((bodySpells fuel).body ">" .code).moves)).bind_ok hc₁ hrun
  obtain ⟨name, c₃, hc₃, hle₃, -, hrun⟩ := (reads_commit reads_ident).bind_ok hc₂ hrun
  obtain ⟨events, c₄, hc₄, hle₄, hevents, hrun⟩ := ((bodySpells fuel).body _ _).bind_ok hc₃ hrun
  obtain ⟨rfl, rfl⟩ := pure_eq_ok hrun
  exact ⟨hc₄, by omega, hevents⟩

theorem reads_typeAlias_spelled (fuel : Nat) :
    Reads t (typeAlias fuel) fun _ _ (d : DeclSyntax) => Spells t d.events := by
  intro budget c c' d hc hrun
  obtain ⟨_, c₁, hc₁, hle₁, -, hrun⟩ := (reads_text "alias").bind_ok hc hrun
  obtain ⟨name, c₂, hc₂, hle₂, -, hrun⟩ := (reads_commit reads_ident).bind_ok hc₁ hrun
  obtain ⟨_, c₃, hc₃, hle₃, -, hrun⟩ := (reads_commit (reads_text "=")).bind_ok hc₂ hrun
  obtain ⟨events, c₄, hc₄, hle₄, hevents, hrun⟩ := ((bodySpells fuel).body _ _).bind_ok hc₃ hrun
  obtain ⟨rfl, rfl⟩ := pure_eq_ok hrun
  exact ⟨hc₄, by omega, hevents⟩

/-- A top-level declaration has spelled events: its attributes' and its own. -/
theorem reads_declaration_spelled (fuel : Nat) :
    Reads t (declaration fuel) fun _ _ (d : DeclSyntax) => Spells t d.events := by
  intro budget c c' d hc hrun
  obtain ⟨hc', hle', -⟩ := reads_declaration fuel hc hrun
  refine ⟨hc', hle', ?_⟩
  simp only [declaration] at hrun
  split at hrun
  · cases hrun
  · next keyword c₁ hkeyword =>
    obtain ⟨hc₁, -, -⟩ := reads_optional (reads_spanned (reads_text "export")) hc hkeyword
    split at hrun
    · cases hrun
    · next attrs d₀ span c₂ hbody =>
      simp only [Outcome.ok.injEq] at hrun
      obtain ⟨rfl, rfl⟩ := hrun
      obtain ⟨-, -, -, -, -, attrs', -, -, hattrs, -, d', -, -, hd, heq⟩ :=
        reads_spanned (reads_bind (reads_attributes_spelled fuel) fun attrs =>
        reads_bind (reads_orElse (reads_function_spelled fuel) (reads_orElse
          (reads_structDecl_spelled fuel) (reads_orElse (reads_globalValue_spelled fuel)
            (reads_typeAlias_spelled fuel)))) fun d =>
          reads_pure (Q := fun _ _ r => r = (attrs, d)) fun _ => rfl) hc₁ hbody
      simp only [Prod.mk.injEq] at heq
      obtain ⟨rfl, rfl⟩ := heq
      exact hattrs.append hd

end Grammar

/-! ### Items -/

/-- An item is spelled in `t` when it is a declaration with spelled events, or another item. -/
def Item.Spelled (t : List Char) : Item → Prop
  | .decl d => ScopeEvent.Spells t d.events
  | _ => True

namespace Grammar

open ShaderLink.Parser ScopeEvent

variable {t : List Char}

/-- A rule that ends by returning an item built from what it read is no declaration. -/
theorem spelled_of_bind_pure {α : Type} {p : Parser α} {f : α → Item}
    (hf : ∀ a, Item.Spelled t (f a)) {budget : Nat} {c c' : Cursor} {item : Item}
    (hrun : (p >>= fun a => pure (f a)) budget c = .ok item c') : item.Spelled t := by
  obtain ⟨a, _, -, hrun⟩ := bind_eq_ok hrun
  obtain ⟨rfl, -⟩ := pure_eq_ok hrun
  exact hf a

theorem reads_globalItem_spelled (fuel : Nat) :
    Reads t (globalItem fuel) fun _ _ o => ∀ item ∈ o, item.Spelled t := by
  have hsome : ∀ {p : Parser Item}, Moves t p → (∀ {budget c c' item}, p budget c = .ok item c' →
      item.Spelled t) → Reads t (some <$> p) fun _ _ o => ∀ item ∈ o, item.Spelled t :=
    fun hp hs => (reads_map (Q := fun _ _ (item : Item) => item.Spelled t)
      fun _ _ _ _ hc hrun => ⟨(hp hc hrun).1, (hp hc hrun).2.1, hs hrun⟩).weaken
      fun _ _ _ _ ⟨item, hitem, hread⟩ x hx => by
        cases hitem
        cases hx
        exact hread
  refine reads_orElse (hsome reads_moduleLine.moves (spelled_of_bind_pure fun _ => by trivial))
    (reads_orElse (hsome (reads_importLine fuel).moves (spelled_of_bind_pure fun _ => by trivial))
    (reads_orElse (hsome reads_exportLine.moves (spelled_of_bind_pure fun _ => by trivial))
    (reads_orElse (hsome (reads_passThrough fuel).moves (spelled_of_bind_pure fun _ => by trivial))
      (reads_orElse ?_ ?_))))
  · exact (reads_map (reads_declaration_spelled fuel)).weaken
      fun _ _ _ _ ⟨d, hd, hspells⟩ x hx => by
      cases hd
      cases hx
      exact hspells
  · -- a skipped token yields no item
    exact (reads_map (moves_bind reads_anyToken.moves fun tok => moves_warn _ _)).weaken
      fun _ _ _ _ ⟨_, hnone, _⟩ x hx => by
        cases hnone
        cases hx

/-- **Items are spelled.** Every declaration read from the start of a text has spelled events:
each of its references of one segment is the slice of the text under its span. -/
theorem topLevel_spelled {s : String} {fuel budget : Nat} {items : List Item} {c' : Cursor}
    (h : topLevel fuel budget (Cursor.start s) = .ok items c') :
    ∀ item ∈ items, item.Spelled s.toList := by
  obtain ⟨os, c₁, hc₁, -, hseq, hrun⟩ :=
    (reads_many (reads_globalItem_spelled fuel)).bind_ok (Cursor.aligned_start s) h
  obtain ⟨_, c₂, -, -, -, hrun⟩ := moves_endOfInput.bind_ok hc₁ hrun
  obtain ⟨rfl, rfl⟩ := pure_eq_ok hrun
  intro item hitem
  obtain ⟨_, _, -, -, ho⟩ := hseq.exists_of_mem _ (List.reduceOption_mem_iff.1 hitem)
  exact ho item rfl

end Grammar

end ShaderLink
