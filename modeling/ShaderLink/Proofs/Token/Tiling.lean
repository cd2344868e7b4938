import ShaderLink.Parse.Tokens
import ShaderLink.Proofs.Text.Slicing
import Mathlib.Data.List.TakeWhile

/-!
# Tokens tile the text

`tokenize` reads a text as shader code, one token after another, and lists the tokens that the
code set does not skip. Every character is read exactly once: the tokens read, skipped ones
included, cover the text one after another, each a non-empty stretch of it whose text is that
stretch and whose span is its bytes (`Lexes`). The skipped tokens are blank runs, line comments
and nesting block comments, so the listed tokens are the text less exactly those
(`tokenize_tiles`).

Each kind of token has its shape (`CodeLexeme`): a blank run holds blanks only; a line comment
runs from `//` up to a line break; a block comment is `/*`, text in which `/*` and `*/` open and
close nested comments, and the `*/` that closes the first (`BlockComment`); an unknown token is
one character. The code set reads no line breaks and no relative markers as tokens.

The proof follows the three loops of reading. Scanning one token is a first match over ordered
rules (`Lexer.firstRule_token`), where the block comment rule counts nesting in a loop of its own
(`Lexer.blockTail_tail`); `anyTokenFrom` scans until a token that is not skipped
(`anyTokenFrom_lexes`); and `tokenize` repeats that until the text ends. Its repetition has fuel
for one round more than the text has characters, and every round reads at least one, so the
fuel never runs out (`manyFor_anyToken_lexes`).
-/

namespace ShaderLink

/-! ### The shape of each kind of token -/

/-- A non-empty run of blanks. -/
def BlankRun (cs : List Char) : Prop := cs ≠ [] ∧ ∀ c ∈ cs, Text.isBlank c = true

/-- A line comment: `//`, then anything but a line break. -/
def LineComment (cs : List Char) : Prop :=
  ∃ r, cs = '/' :: '/' :: r ∧ ∀ c ∈ r, Text.isLineBreak c = false

/-- `c`, followed by `next`, spells `/*` or `*/`. -/
def Delimits (c : Char) (next : Option Char) : Prop :=
  (c = '/' ∧ next = some '*') ∨ (c = '*' ∧ next = some '/')

/-- The text between the `/*` and the `*/` of a block comment: nested block comments, and
characters that start neither `/*` nor `*/` with the character after them (the `*/` after the
text included). -/
inductive CommentBody : List Char → Prop
  | nil : CommentBody []
  | nested {b r : List Char} : CommentBody b → CommentBody r →
      CommentBody ('/' :: '*' :: (b ++ '*' :: '/' :: r))
  | plain {c : Char} {r : List Char} : ¬ Delimits c (r ++ ['*', '/']).head? → CommentBody r →
      CommentBody (c :: r)

/-- A block comment: `/*`, its text, `*/`. -/
def BlockComment (cs : List Char) : Prop :=
  ∃ b, CommentBody b ∧ cs = '/' :: '*' :: (b ++ ['*', '/'])

/-- What a token of each kind spells when read as shader code. Blanks and comments have the
shapes above, an unknown token is one character, and line breaks and relative markers are no
tokens of the code set. Directives, numbers, words and symbols are left to their rules. -/
def CodeLexeme : TokenKind → List Char → Prop
  | .space, cs => BlankRun cs
  | .comment, cs => LineComment cs ∨ BlockComment cs
  | .eol, _ => False
  | .relativePrefix, _ => False
  | .unknown, cs => cs.length = 1
  | _, _ => True

/-! ### Nesting block comments -/

/-- What follows the `/*` of a block comment while `d` nested comments are open inside it:
comment text and a `*/`, `d + 1` times. -/
inductive CommentTail : Nat → List Char → Prop
  | close {b : List Char} : CommentBody b → CommentTail 0 (b ++ ['*', '/'])
  | closeNested {d : Nat} {b rest : List Char} : CommentBody b → CommentTail d rest →
      CommentTail (d + 1) (b ++ '*' :: '/' :: rest)

namespace CommentTail

theorem head?_append_close (b rest : List Char) :
    (b ++ '*' :: '/' :: rest).head? = (b ++ ['*', '/']).head? := by
  cases b <;> rfl

/-- A character that opens and closes nothing continues the first stretch of comment text. -/
theorem cons_plain {d : Nat} {cs : List Char} {c : Char} (h : CommentTail d cs)
    (hc : ¬ Delimits c cs.head?) : CommentTail d (c :: cs) := by
  cases h with
  | close hb => exact .close (.plain hc hb)
  | closeNested hb hrest =>
    rw [head?_append_close] at hc
    exact .closeNested (.plain hc hb) hrest

/-- A nested comment in front of the text, closed by the first `*/`, joins the first stretch
of comment text. -/
theorem nest {d : Nat} {b cs : List Char} (hb : CommentBody b) (h : CommentTail d cs) :
    CommentTail d ('/' :: '*' :: (b ++ '*' :: '/' :: cs)) := by
  cases h with
  | close hb' =>
    have := CommentTail.close (CommentBody.nested hb hb')
    simpa using this
  | closeNested hb' hrest =>
    have := CommentTail.closeNested (CommentBody.nested hb hb') hrest
    simpa using this

theorem ne_nil {d : Nat} {cs : List Char} (h : CommentTail d cs) : cs ≠ [] := by
  cases h <;> simp

theorem zero_inv {cs : List Char} (h : CommentTail 0 cs) :
    ∃ b, CommentBody b ∧ cs = b ++ ['*', '/'] := by
  cases h with
  | close hb => exact ⟨_, hb, rfl⟩

theorem succ_inv {d : Nat} {cs : List Char} (h : CommentTail (d + 1) cs) :
    ∃ b rest, CommentBody b ∧ CommentTail d rest ∧ cs = b ++ '*' :: '/' :: rest := by
  cases h with
  | closeNested hb hrest => exact ⟨_, _, hb, hrest, rfl⟩

end CommentTail

namespace Lexer

/-- The rest of a block comment read by `blockTail` at nesting `d` is comment text closed
`d + 1` times. -/
theorem blockTail_tail {r : List Char} {d n : Nat} (h : blockTail r d = some n) :
    CommentTail d (r.take n) := by
  induction r, d using blockTail.induct generalizing n with
  | case1 tail =>
    simp only [blockTail, Option.some.injEq] at h
    subst h
    exact .close .nil
  | case2 r d ih =>
    obtain ⟨m, hm, rfl⟩ := Option.map_eq_some_iff.1 h
    simpa using CommentTail.closeNested .nil (ih hm)
  | case3 r d ih =>
    obtain ⟨m, hm, rfl⟩ := Option.map_eq_some_iff.1 h
    -- the nested comment closes at the first `*/` of what follows it
    obtain ⟨b, rest, hb, hrest, heq⟩ := (ih hm).succ_inv
    simp only [List.take_succ_cons, heq]
    exact hrest.nest hb
  | case4 c r d hclose hnested hopen ih =>
    rw [blockTail.eq_4 d c r hopen hclose hnested] at h
    obtain ⟨m, hm, rfl⟩ := Option.map_eq_some_iff.1 h
    have htail := ih hm
    refine List.take_succ_cons ▸ htail.cons_plain ?_
    -- the text after `c` starts as `r` does, and `c` with it spells no delimiter
    have hhead : (r.take m).head? = r.head? := by
      cases r with
      | nil => simp
      | cons x xs =>
        cases m with
        | zero => exact absurd rfl htail.ne_nil
        | succ m => rfl
    rw [hhead]
    rintro (⟨rfl, hr⟩ | ⟨rfl, hr⟩)
    · obtain ⟨r', rfl⟩ := List.head?_eq_some_iff.1 hr
      exact hopen r' rfl rfl
    · obtain ⟨r', rfl⟩ := List.head?_eq_some_iff.1 hr
      cases d with
      | zero => exact hclose r' rfl rfl rfl
      | succ d => exact hnested r' d rfl rfl rfl
  | case5 => simp [blockTail] at h

theorem take_run (p : Char → Bool) (cs : List Char) : cs.take (run p cs) = cs.takeWhile p := by
  induction cs with
  | nil => rfl
  | cons c cs ih =>
    by_cases h : p c
    · simpa [run, h] using ih
    · simp [run, h]

theorem blanks_lexeme {cs : List Char} {n : Nat} (h : blanks cs = .hit n) :
    BlankRun (cs.take n) := by
  simp only [blanks] at h
  split at h
  · cases h
  · next hk =>
    cases h
    rw [take_run]
    refine ⟨fun hnil => hk ?_, fun c hc => List.mem_takeWhile_imp hc⟩
    rw [run, hnil, List.length_nil]

theorem lineComment_lexeme {cs : List Char} {n : Nat} (h : lineComment cs = .hit n) :
    LineComment (cs.take n) := by
  simp only [lineComment] at h
  split at h
  · next r =>
    cases h
    refine ⟨r.takeWhile fun c => !Text.isLineBreak c, ?_, fun c hc => ?_⟩
    · rw [show 2 + run (fun c => !Text.isLineBreak c) r =
          run (fun c => !Text.isLineBreak c) r + 1 + 1 by omega]
      simp only [List.take_succ_cons, take_run]
    · simpa using List.mem_takeWhile_imp hc
  · cases h

theorem blockComment_lexeme {cs : List Char} {n : Nat} (h : blockComment cs = .hit n) :
    BlockComment (cs.take n) := by
  simp only [blockComment] at h
  split at h
  · next r =>
    split at h
    · next m hm =>
      cases h
      obtain ⟨b, hb, heq⟩ := (blockTail_tail hm).zero_inv
      refine ⟨b, hb, ?_⟩
      rw [show 2 + m = m + 1 + 1 by omega]
      simp only [List.take_succ_cons, heq]
    · cases h
  · cases h

theorem comment_lexeme {cs : List Char} {n : Nat} (h : comment cs = .hit n) :
    LineComment (cs.take n) ∨ BlockComment (cs.take n) := by
  cases hl : lineComment cs with
  | miss =>
    rw [comment, hl] at h
    exact .inr (blockComment_lexeme h)
  | hit k =>
    rw [comment, hl] at h
    cases h
    exact .inl (lineComment_lexeme hl)
  | fault f =>
    rw [comment, hl] at h
    cases h

/-- A token scanned by ordered rules comes from a rule that matched, with that rule's kind, or
is a single unknown character when no rule matched. -/
theorem firstRule_token {cs : List Char} {k : TokenKind} {n : Nat} :
    ∀ {rs}, firstRule cs rs = .token k n →
      (∃ m, (k, m) ∈ rs ∧ m cs = .hit n) ∨ (k = .unknown ∧ n = 1)
  | [], h => by
    simp only [firstRule, Scan.token.injEq] at h
    exact .inr ⟨h.1.symm, h.2.symm⟩
  | (k', m) :: rs, h => by
    simp only [firstRule] at h
    split at h
    · next hm =>
      simp only [Scan.token.injEq] at h
      obtain ⟨rfl, rfl⟩ := h
      exact .inl ⟨m, List.mem_cons_self, hm⟩
    · cases h
    · rcases firstRule_token h with ⟨m', hmem, hm'⟩ | hunknown
      · exact .inl ⟨m', List.mem_cons_of_mem _ hmem, hm'⟩
      · exact .inr hunknown

theorem firstRule_ne_atEnd {cs : List Char} : ∀ {rs}, firstRule cs rs ≠ .atEnd
  | [] => by simp [firstRule]
  | (k, m) :: rs => by
    simp only [firstRule]
    split
    · simp
    · simp
    · exact firstRule_ne_atEnd

end Lexer

/-- A token scanned as shader code spells a lexeme of its kind. -/
theorem scan_code_lexeme {cs : List Char} {k : TokenKind} {n : Nat}
    (h : scan .code cs = .token k n) : CodeLexeme k (cs.take n) := by
  cases cs with
  | nil => cases h
  | cons c cs =>
    rcases Lexer.firstRule_token h with ⟨m, hmem, hm⟩ | ⟨rfl, rfl⟩
    · simp only [Lexer.rules, List.mem_cons, Prod.mk.injEq, List.not_mem_nil, or_false] at hmem
      rcases hmem with ⟨rfl, rfl⟩ | ⟨rfl, rfl⟩ | ⟨rfl, rfl⟩ | ⟨rfl, rfl⟩ | ⟨rfl, rfl⟩ |
        ⟨rfl, rfl⟩
      · exact Lexer.blanks_lexeme hm
      · exact Lexer.comment_lexeme hm
      all_goals trivial
    · simp [CodeLexeme]

/-- Scanning yields the end only on an empty text. -/
theorem scan_eq_atEnd {set : TokenSet} {cs : List Char} (h : scan set cs = .atEnd) : cs = [] := by
  cases cs with
  | nil => rfl
  | cons c cs => exact absurd h Lexer.firstRule_ne_atEnd

/-! ### Tilings -/

/-- `Lexes pos cs ts`: read as shader code from byte `pos` on, the text `cs` is the tokens `ts`
one after another. Each token is a non-empty stretch of the text, spelled as its kind says, with
that stretch as its text and its bytes as its span. -/
inductive Lexes : Nat → List Char → List Token → Prop
  | nil {pos : Nat} : Lexes pos [] []
  | cons {pos : Nat} {lexeme rest : List Char} {t : Token} {ts : List Token} :
      lexeme ≠ [] → CodeLexeme t.kind lexeme → t.text = String.ofList lexeme →
      t.span = ⟨pos, pos + Text.byteSize lexeme⟩ → Lexes (pos + Text.byteSize lexeme) rest ts →
      Lexes pos (lexeme ++ rest) (t :: ts)

namespace Lexes

variable {pos : Nat} {cs : List Char} {ts : List Token}

theorem single {lexeme : List Char} {t : Token} (hne : lexeme ≠ [])
    (hk : CodeLexeme t.kind lexeme) (htext : t.text = String.ofList lexeme)
    (hspan : t.span = ⟨pos, pos + Text.byteSize lexeme⟩) :
    Lexes pos lexeme [t] := by
  simpa using Lexes.cons hne hk htext hspan .nil

theorem ne_nil (h : Lexes pos cs ts) (hts : ts ≠ []) : cs ≠ [] := by
  cases h with
  | nil => exact absurd rfl hts
  | cons hne _ _ _ _ => simp [hne]

theorem append {a b : List Char} {us : List Token} (ha : Lexes pos a ts)
    (hb : Lexes (pos + Text.byteSize a) b us) : Lexes pos (a ++ b) (ts ++ us) := by
  induction ha with
  | nil => simpa using hb
  | @cons pos lexeme rest t ts hne hk htext hspan _ ih =>
    rw [List.append_assoc, List.cons_append]
    refine .cons hne hk htext hspan (ih ?_)
    simpa [Text.byteSize_append, Nat.add_assoc] using hb

/-- Each token of a tiling spells a lexeme of its kind. -/
theorem lexeme (h : Lexes pos cs ts) : ∀ t ∈ ts, CodeLexeme t.kind t.text.toList := by
  induction h with
  | nil => simp
  | cons _ hk htext _ _ ih =>
    intro u hu
    rcases List.mem_cons.1 hu with rfl | hu
    · rwa [htext, String.toList_ofList]
    · exact ih u hu

/-- Each token of a tiling is the slice of the whole text between the ends of its span. -/
theorem slice? (h : Lexes pos cs ts) {pre suf : List Char} (hpre : Text.byteSize pre = pos) :
    ∀ t ∈ ts, t.span.start < t.span.stop ∧
      Text.slice? (pre ++ cs ++ suf) t.span.start t.span.stop = some t.text.toList := by
  induction h generalizing pre with
  | nil => simp
  | @cons pos lexeme rest t ts hne _ htext hspan _ ih =>
    intro u hu
    rcases List.mem_cons.1 hu with rfl | hu
    · have hpos : 0 < Text.byteSize lexeme := by
        cases lexeme with
        | nil => exact absurd rfl hne
        | cons x xs => simp only [Text.byteSize_cons]; have := Char.utf8Size_pos x; omega
      rw [hspan, htext, String.toList_ofList, ← hpre]
      refine ⟨by simp only; omega, ?_⟩
      simpa using Text.slice?_middle pre lexeme (rest ++ suf)
    · have := @ih (pre ++ lexeme) (by rw [Text.byteSize_append, hpre]) u hu
      simpa using this

/-- The spans of a tiling ascend through the whole text, from the tiling's start to its end. -/
theorem ascending (h : Lexes pos cs ts) {pre suf : List Char} (hpre : Text.byteSize pre = pos) :
    Span.Ascending (pre ++ cs ++ suf) pos (pos + Text.byteSize cs) (ts.map (·.span)) := by
  induction h generalizing pre with
  | nil => exact .nil (by simp)
  | @cons pos lexeme rest t ts hne _ htext hspan _ ih =>
    have hnext := @ih (pre ++ lexeme) (by rw [Text.byteSize_append, hpre])
    simp only [List.append_assoc] at hnext
    rw [List.map_cons, hspan, Text.byteSize_append, ← Nat.add_assoc]
    refine .cons ⟨Nat.le_refl _, Nat.le_add_right _ _, Nat.le_refl _, ?_, ?_⟩
      (by simpa using hnext)
    · exact Text.isBoundary_iff.2 ⟨pre, lexeme ++ rest ++ suf, by simp, hpre⟩
    · exact Text.isBoundary_iff.2 ⟨pre ++ lexeme, rest ++ suf, by simp,
        by rw [Text.byteSize_append, hpre]⟩

end Lexes

/-! ### Reading tokens -/

/-- One token read as shader code covers the next stretch of the text. -/
theorem lexOne_lexes {budget : Nat} {c c' : Cursor} {t : Token} (hset : c.set = .code)
    (h : Parser.lexOne budget c = .ok t c') :
    ∃ lexeme, c.rest = lexeme ++ c'.rest ∧ Lexes c.pos lexeme [t] ∧
      c'.pos = c.pos + Text.byteSize lexeme ∧ c'.set = .code := by
  simp only [Parser.lexOne] at h
  split at h
  · cases h
  · split at h
    · cases h
    · cases h
    · next k n hscan =>
      cases h
      rw [hset] at hscan
      have hpos := scan_token_pos hscan
      refine ⟨c.rest.take n, (List.take_append_drop _ _).symm, .single ?_ (scan_code_lexeme hscan)
        rfl rfl, rfl, hset⟩
      intro hnil
      rcases List.take_eq_nil_iff.1 hnil with h0 | h0
      · omega
      · exact hpos.2 h0

/-- The only failure of reading a token that does not commit is the end of the text. -/
theorem lexOne_rest_eq_nil {budget : Nat} {c c' : Cursor} {f : Failure}
    (h : Parser.lexOne budget c = .error f c') (hf : f.committed = false) : c.rest = [] := by
  simp only [Parser.lexOne] at h
  split at h
  · cases h
    simp at hf
  · split at h
    · exact scan_eq_atEnd ‹_›
    · cases h
      simp at hf
    · cases h

/-- Skipped tokens leave nothing when the listed ones are filtered out. -/
theorem filter_skipped {skipped : List Token}
    (h : ∀ s ∈ skipped, TokenSet.code.ignores s.kind = true) :
    skipped.filter (fun t => !TokenSet.code.ignores t.kind) = [] :=
  List.filter_eq_nil_iff.2 fun s hs => by simp [h s hs]

/-- Reading up to the next token that is not skipped covers a stretch of the text with skipped
tokens and then that token. -/
theorem anyTokenFrom_lexes {budget : Nat} {c c' : Cursor} {t : Token} (hset : c.set = .code)
    (h : Parser.anyTokenFrom budget c = .ok t c') :
    ∃ skipped mid, c.rest = mid ++ c'.rest ∧ Lexes c.pos mid (skipped ++ [t]) ∧
      (∀ s ∈ skipped, TokenSet.code.ignores s.kind = true) ∧
      TokenSet.code.ignores t.kind = false ∧ c'.pos = c.pos + Text.byteSize mid ∧
      c'.set = .code := by
  rw [Parser.anyTokenFrom] at h
  split at h
  · next t₁ c₁ hlex =>
    obtain ⟨lexeme, hrest₁, hlexes₁, hpos₁, hset₁⟩ := lexOne_lexes hset hlex
    split at h
    · -- a skipped token, and the loop goes on after it
      next hskip =>
      obtain ⟨skipped, mid, hrest, hlexes, hskipped, hkeep, hpos, hset'⟩ :=
        anyTokenFrom_lexes hset₁ h
      refine ⟨t₁ :: skipped, lexeme ++ mid, by rw [hrest₁, hrest, List.append_assoc], ?_,
        List.forall_mem_cons.2 ⟨hset ▸ hskip, hskipped⟩, hkeep,
        by rw [hpos, hpos₁, Text.byteSize_append, Nat.add_assoc], hset'⟩
      rw [hpos₁] at hlexes
      exact hlexes₁.append hlexes
    · next hkeep =>
      cases h
      refine ⟨[], lexeme, hrest₁, hlexes₁, by simp, ?_, hpos₁, hset₁⟩
      rwa [hset, Bool.not_eq_true] at hkeep
  · cases h
termination_by c.rest.length
decreasing_by exact Parser.lexOne_rest_lt ‹_›

/-- Reading up to the next token that is not skipped fails without committing only when the
rest of the text is skipped tokens to its end. -/
theorem anyTokenFrom_lexes_of_error {budget : Nat} {c c' : Cursor} {f : Failure}
    (hset : c.set = .code) (h : Parser.anyTokenFrom budget c = .error f c')
    (hf : f.committed = false) :
    ∃ skipped, Lexes c.pos c.rest skipped ∧
      ∀ s ∈ skipped, TokenSet.code.ignores s.kind = true := by
  rw [Parser.anyTokenFrom] at h
  split at h
  · next t₁ c₁ hlex =>
    obtain ⟨lexeme, hrest₁, hlexes₁, hpos₁, hset₁⟩ := lexOne_lexes hset hlex
    split at h
    · next hskip =>
      obtain ⟨skipped, hlexes, hskipped⟩ := anyTokenFrom_lexes_of_error hset₁ h hf
      refine ⟨t₁ :: skipped, ?_, List.forall_mem_cons.2 ⟨hset ▸ hskip, hskipped⟩⟩
      rw [hrest₁]
      rw [hpos₁] at hlexes
      exact hlexes₁.append hlexes
    · cases h
  · next f₁ c₁ hlex =>
    cases h
    exact ⟨[], lexOne_rest_eq_nil hlex hf ▸ .nil, by simp⟩
termination_by c.rest.length
decreasing_by exact Parser.lexOne_rest_lt ‹_›

/-- Repeating `anyToken` until it fails without committing, with fuel for more rounds than the
text has characters, reads the whole text; the tokens it returns are those not skipped. -/
theorem manyFor_anyToken_lexes : ∀ (fuel : Nat) {budget : Nat} {c c' : Cursor}
    {toks : List Token}, c.set = .code → c.rest.length < fuel →
    Parser.manyFor Parser.anyToken fuel budget c = .ok toks c' →
    ∃ all, Lexes c.pos c.rest all ∧ toks = all.filter fun t => !TokenSet.code.ignores t.kind
  | 0, _, _, _, _, _, hlt, _ => absurd hlt (Nat.not_lt_zero _)
  | fuel + 1, budget, c, c', toks, hset, hlt, h => by
    simp only [Parser.manyFor] at h
    split at h
    · next t c₁ htok =>
      split at h
      · next toks' c₂ hmore =>
        cases h
        obtain ⟨skipped, mid, hrest, hlexes, hskipped, hkeep, hpos, hset₁⟩ :=
          anyTokenFrom_lexes hset htok
        -- the round read at least one character, so the fuel left still suffices
        have hlen : c₁.rest.length < fuel := by
          have hmid : mid ≠ [] := hlexes.ne_nil (by simp)
          have := congrArg List.length hrest
          rw [List.length_append] at this
          have := List.length_pos_iff.2 hmid
          omega
        obtain ⟨all, hall, rfl⟩ := manyFor_anyToken_lexes fuel hset₁ hlen hmore
        refine ⟨skipped ++ [t] ++ all, ?_, ?_⟩
        · rw [hrest]
          rw [hpos] at hall
          exact hlexes.append hall
        · simp [List.filter_append, filter_skipped hskipped, hkeep]
      · cases h
    · next f c₁ htok =>
      split at h
      · cases h
      · next hf =>
        cases h
        obtain ⟨skipped, hlexes, hskipped⟩ :=
          anyTokenFrom_lexes_of_error hset htok (by simpa using hf)
        exact ⟨skipped, hlexes, (filter_skipped hskipped).symm⟩

/-- The tokens of a text are its tiling as shader code less the skipped tokens. -/
theorem tokenize_lexes {text : String} {toks : List Token} (h : tokenize text = .ok toks) :
    ∃ all, Lexes 0 text.toList all ∧
      toks = all.filter fun t => !TokenSet.code.ignores t.kind := by
  simp only [tokenize] at h
  split at h
  · next toks' c hrun =>
    cases h
    exact manyFor_anyToken_lexes _ rfl (Nat.lt_succ_self _) hrun
  · cases h

/-- The tokens tiling a whole text: each is non-empty and a slice of the text, with the text of
its span as its own, and each ends before the next starts. -/
theorem Lexes.spans {text : String} {all : List Token} (h : Lexes 0 text.toList all) :
    all.Pairwise (fun a b => a.span.stop ≤ b.span.start) ∧
      ∀ t ∈ all, t.span.start < t.span.stop ∧
        t.span.Within text.toList 0 text.utf8ByteSize ∧
        Text.sliceString? text t.span = some t.text := by
  have hasc : Span.Ascending ([] ++ text.toList ++ []) 0 (0 + Text.byteSize text.toList)
      (all.map (·.span)) := h.ascending rfl
  simp only [List.nil_append, List.append_nil, Nat.zero_add, Text.byteSize_toList] at hasc
  refine ⟨List.pairwise_map.1 hasc.pairwise, fun t ht => ?_⟩
  have hslices : ∀ t ∈ all, t.span.start < t.span.stop ∧
      Text.slice? ([] ++ text.toList ++ []) t.span.start t.span.stop = some t.text.toList :=
    h.slice? rfl
  obtain ⟨hlt, hslice⟩ := hslices t ht
  simp only [List.nil_append, List.append_nil] at hslice
  exact ⟨hlt, hasc.within _ (List.mem_map_of_mem ht), by simp [Text.sliceString?, hslice]⟩

/-- **The tokens of a text tile it.** When `tokenize` succeeds, the text read as shader code is
a sequence of tokens, each a non-empty stretch of it spelled as its kind says, and the listed
tokens are those of them that are neither blanks nor comments: every byte outside the listed
tokens is in a blank run, a line comment or a nesting block comment. So every listed token has a
non-empty span on character boundaries of the text, with the text of that span as its own; the
spans ascend, each ending before the next starts; no listed token is a blank run, a comment, a
line break or a relative marker; and an unknown token is one character. -/
theorem tokenize_tiles (text : String) (toks : List Token) (h : tokenize text = .ok toks) :
    (∃ all, Lexes 0 text.toList all ∧ toks = all.filter fun t => !TokenSet.code.ignores t.kind) ∧
      toks.Pairwise (fun a b => a.span.stop ≤ b.span.start) ∧
      ∀ t ∈ toks, t.span.start < t.span.stop ∧ t.span.Within text.toList 0 text.utf8ByteSize ∧
        Text.sliceString? text t.span = some t.text ∧
        t.kind ∉ [.space, .comment, .eol, .relativePrefix] ∧ (t.kind = .unknown → t.text.length = 1) := by
  obtain ⟨all, hall, rfl⟩ := tokenize_lexes h
  obtain ⟨hpairwise, hspans⟩ := hall.spans
  refine ⟨⟨all, hall, rfl⟩, hpairwise.sublist List.filter_sublist, fun t ht => ?_⟩
  obtain ⟨hmem, hkeep⟩ := List.mem_filter.1 ht
  have hlexeme := hall.lexeme t hmem
  refine ⟨(hspans t hmem).1, (hspans t hmem).2.1, (hspans t hmem).2.2, ?_, fun hk => ?_⟩
  · -- blanks and comments are skipped; the code set reads no line breaks or relative markers
    intro hin
    simp only [List.mem_cons, List.not_mem_nil, or_false] at hin
    rcases hin with hk | hk | hk | hk <;> rw [hk] at hkeep hlexeme
    · simp [TokenSet.ignores] at hkeep
    · simp [TokenSet.ignores] at hkeep
    · exact hlexeme
    · exact hlexeme
  · rw [hk] at hlexeme
    rwa [← String.length_toList]

/-- A member access, a nested block comment and a number with a suffix: the comment is skipped
whole, and each token is the text of its span. -/
theorem nestedComment_tiles :
    tokenize "a.b /* c /* d */ */ 1u" = .ok [⟨.word, "a", ⟨0, 1⟩⟩, ⟨.symbol, ".", ⟨1, 2⟩⟩,
      ⟨.word, "b", ⟨2, 3⟩⟩, ⟨.number, "1u", ⟨20, 22⟩⟩] ∧
      (∃ all, Lexes 0 "a.b /* c /* d */ */ 1u".toList all ∧
        [⟨.word, "a", ⟨0, 1⟩⟩, ⟨.symbol, ".", ⟨1, 2⟩⟩, ⟨.word, "b", ⟨2, 3⟩⟩,
          (⟨.number, "1u", ⟨20, 22⟩⟩ : Token)] = all.filter fun t => !TokenSet.code.ignores t.kind) := by
  have h : tokenize "a.b /* c /* d */ */ 1u" = .ok [⟨.word, "a", ⟨0, 1⟩⟩, ⟨.symbol, ".", ⟨1, 2⟩⟩,
      ⟨.word, "b", ⟨2, 3⟩⟩, ⟨.number, "1u", ⟨20, 22⟩⟩] := by
    decide +kernel
  exact ⟨h, (tokenize_tiles _ _ h).1⟩

end ShaderLink
