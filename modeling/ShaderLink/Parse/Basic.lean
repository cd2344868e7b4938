import ShaderLink.Token.Lexer
import ShaderLink.Text.Offset

/-!
# Backtracking parsers over tokens

Grammar rules read tokens on demand from the front of the text, with the token set that is
active at the time, so a rule can switch sets for a while (the arguments of an import line are
read differently from code).

A rule either succeeds or fails; a failure *backtracks*, letting an enclosing choice try
something else from where it started, or is *committed*, ending the whole parse. A failure
carries context notes, innermost first: `label`s name what was being read, `expected`s what
should have come. `commit p what` makes the failures of `p` committed, noting `what`.

Besides the position, the cursor keeps three things that no backtracking undoes: the number
of tokens read, which a budget bounds (reading past it is a committed failure); the furthest
start of any token that was read and not skipped, where errors are reported; and warnings.
-/

namespace ShaderLink

/-- A note on a failure: what was being read, or what was expected. -/
inductive Context where
  | label (l : String)
  | expected (what : String)
deriving DecidableEq, Repr, Inhabited

/-- A context note as reports show it. -/
def Context.render : Context → String
  | .label l => "invalid " ++ l
  | .expected d => "expected " ++ d

/-- Why a rule did not succeed. -/
structure Failure where
  /-- A committed failure ends the parse; any other lets an enclosing choice go on. -/
  committed : Bool
  /-- Notes, innermost first. -/
  contexts : List Context
  /-- The token budget ran out. -/
  overBudget : Bool
deriving DecidableEq, Repr, Inhabited

/-- A failure that lets an enclosing choice go on, with no notes. -/
def Failure.decline : Failure := ⟨false, [], false⟩

/-- The notes of a failure to read a token. -/
def LexFault.contexts : LexFault → List Context
  | .unclosedComment => [.label "block comment"]
  | .exponentDigits => []

/-- Where a parse stands. -/
structure Cursor where
  /-- The text not read yet. -/
  rest : List Char
  /-- The byte offset of `rest` in the whole text. -/
  pos : Nat
  /-- Tokens read so far, counting those read again after backtracking. -/
  steps : Nat
  /-- The furthest start of a token read and not skipped. -/
  furthest : Nat
  /-- The active token set. -/
  set : TokenSet
  /-- Warnings, with the span in the parsed text they are about. -/
  notes : Array (Span × String)
deriving Inhabited

/-- A cursor at the start of a text. -/
def Cursor.start (text : String) : Cursor := ⟨text.toList, 0, 0, 0, .code, #[]⟩

/-- Moves the cursor back to where `c` stood, keeping all that backtracking does not undo. -/
def Cursor.resetTo (now c : Cursor) : Cursor := { now with rest := c.rest, pos := c.pos }

/-- The result of a rule. -/
inductive Outcome (α : Type) where
  | ok (value : α) (cursor : Cursor)
  | error (failure : Failure) (cursor : Cursor)
deriving Inhabited

/-- A grammar rule: given the token budget and a cursor, an outcome. -/
def Parser (α : Type) : Type := Nat → Cursor → Outcome α

namespace Parser

variable {α β : Type}

instance : Monad Parser where
  pure a := fun _ c => .ok a c
  bind p f := fun budget c =>
    match p budget c with
    | .ok a c' => f a budget c'
    | .error e c' => .error e c'

/-- Fails, letting an enclosing choice go on. -/
def decline : Parser α := fun _ c => .error .decline c

/-- The byte offset of the cursor. -/
def position : Parser Nat := fun _ c => .ok c.pos c

/-- Makes the failures of a rule committed. -/
def cut (p : Parser α) : Parser α := fun budget c =>
  match p budget c with
  | .error f c' => .error { f with committed := true } c'
  | r => r

/-- Adds a note to the failures of a rule. -/
def note (x : Context) (p : Parser α) : Parser α := fun budget c =>
  match p budget c with
  | .error f c' => .error { f with contexts := f.contexts ++ [x] } c'
  | r => r

/-- After this point the syntax is settled: a failure of `p` is committed, expecting `what`. -/
def commit (p : Parser α) (what : String) : Parser α := note (.expected what) (cut p)

/-- A committed failure labelled `l`. -/
def hardError (l : String) : Parser α := note (.label l) (cut decline)

/-- `p`, or else `q` from where `p` started, if `p` fails without committing. -/
def orElse (p q : Parser α) : Parser α := fun budget c =>
  match p budget c with
  | .error f c' => if f.committed then .error f c' else q budget (c'.resetTo c)
  | r => r

/-- `p`, or nothing from where `p` started, if `p` fails without committing. -/
def optional (p : Parser α) : Parser (Option α) := fun budget c =>
  match p budget c with
  | .ok a c' => .ok (some a) c'
  | .error f c' => if f.committed then .error f c' else .ok none (c'.resetTo c)

/-- `p` without moving the cursor on success. -/
def peek (p : Parser α) : Parser α := fun budget c =>
  match p budget c with
  | .ok a c' => .ok a (c'.resetTo c)
  | r => r

/-- Succeeds where `p` fails without committing, declines where `p` succeeds, and never
moves the cursor. -/
def notFollowedBy (p : Parser α) : Parser Unit := fun budget c =>
  match p budget c with
  | .ok _ c' => .error .decline (c'.resetTo c)
  | .error f c' => if f.committed then .error f (c'.resetTo c) else .ok () (c'.resetTo c)

/-- `p`, declining from where it started when its value fails the test. -/
def verify (p : Parser α) (test : α → Bool) : Parser α := fun budget c =>
  match p budget c with
  | .ok a c' => if test a then .ok a c' else .error .decline (c'.resetTo c)
  | r => r

/-- Runs `p` with another token set, restoring the active one afterwards. -/
def withSet (set : TokenSet) (p : Parser α) : Parser α := fun budget c =>
  match p budget { c with set } with
  | .ok a c' => .ok a { c' with set := c.set }
  | .error f c' => .error f { c' with set := c.set }

/-- Records a warning about a span. -/
def warn (span : Span) (message : String) : Parser Unit := fun _ c =>
  .ok () { c with notes := c.notes.push (span, message) }

/-- Reads one token with the active token set, skipped kinds included. Every call counts
against the budget; the end of the text declines. -/
def lexOne : Parser Token := fun budget c =>
  let c := { c with steps := c.steps + 1 }
  if budget < c.steps then .error ⟨true, [.label "parse step limit"], true⟩ c
  else
    match scan c.set c.rest with
    | .atEnd => .error .decline c
    | .fault f => .error ⟨true, f.contexts, false⟩ c
    | .token k n =>
      let lexeme := c.rest.take n
      let stop := c.pos + Text.byteSize lexeme
      let furthest := if c.set.ignores k then c.furthest else max c.furthest c.pos
      .ok ⟨k, String.ofList lexeme, ⟨c.pos, stop⟩⟩ { c with rest := c.rest.drop n, pos := stop, furthest }

theorem lexOne_rest_lt {budget : Nat} {c c' : Cursor} {t : Token}
    (h : lexOne budget c = .ok t c') : c'.rest.length < c.rest.length := by
  simp only [lexOne] at h
  split at h
  · cases h
  · split at h
    · cases h
    · cases h
    · rename_i k n hs
      cases h
      have := scan_token_pos hs
      simp only [List.length_drop]
      have : c.rest.length ≠ 0 := by simpa using this.2
      omega

theorem lexOne_set {budget : Nat} {c c' : Cursor} {t : Token}
    (h : lexOne budget c = .ok t c') : c'.set = c.set := by
  simp only [lexOne] at h
  split at h
  · cases h
  · split at h
    · cases h
    · cases h
    · cases h; rfl

/-- Reads tokens from `c` until one that the active set does not skip. -/
def anyTokenFrom (budget : Nat) (c : Cursor) : Outcome Token :=
  match h : lexOne budget c with
  | .ok t c' => if c.set.ignores t.kind then anyTokenFrom budget c' else .ok t c'
  | .error f c' => .error f c'
termination_by c.rest.length
decreasing_by exact lexOne_rest_lt h

/-- The next token that the active set does not skip. -/
def anyToken : Parser Token := anyTokenFrom

/-- Skips tokens from `c` up to the start of the next one that is not skipped. That token
is read, and counts, but the cursor stays before it. -/
def skipFrom (budget : Nat) (c : Cursor) : Outcome Unit :=
  match h : lexOne budget c with
  | .ok t c' => if c.set.ignores t.kind then skipFrom budget c' else .ok () (c'.resetTo c)
  | .error f c' => if f.committed then .error f c' else .ok () (c'.resetTo c)
termination_by c.rest.length
decreasing_by exact lexOne_rest_lt h

/-- Moves the cursor to the start of the next token that is not skipped. -/
def skipIgnored : Parser Unit := skipFrom

/-- The next token, when it has kind `k`. -/
def kind (k : TokenKind) : Parser Token := verify anyToken (·.kind == k)

/-- The next token, when it is a word, symbol or directive spelled `s`. -/
def text (s : String) : Parser Token :=
  verify anyToken fun t =>
    t.text == s && (t.kind == .word || t.kind == .symbol || t.kind == .directive)

/-- The next token, when it is a word that is not reserved. -/
def ident : Parser Token := verify anyToken fun t => t.kind == .word && !isKeyword t.text

/-- `p` with the span from the start of its first token to the end of its last. -/
def spanned (p : Parser α) : Parser (α × Span) := do
  skipIgnored
  let start ← position
  let a ← p
  let stop ← position
  pure (a, ⟨start, stop⟩)

/-- Succeeds at the end of the text, where no token is left. -/
def endOfInput : Parser Unit := notFollowedBy anyToken

/-- Repeats `p` until it fails without committing, at most `fuel` times. -/
def manyFor (p : Parser α) : Nat → Parser (List α)
  | 0 => pure []
  | fuel + 1 => fun budget c =>
    match p budget c with
    | .ok a c' =>
      match manyFor p fuel budget c' with
      | .ok as c'' => .ok (a :: as) c''
      | .error f c'' => .error f c''
    | .error f c' => if f.committed then .error f c' else .ok [] (c'.resetTo c)

/-- Repeats `p` until it fails without committing. Each success of `p` reads at least one
character, so the rest of the text bounds the repetitions. -/
def many (p : Parser α) : Parser (List α) := fun budget c =>
  manyFor p (c.rest.length + 1) budget c

/-- After a first `p`, repeats `sep` then `p` as long as both succeed; when `sep` succeeds
and `p` fails, the cursor goes back before `sep`. -/
def sepTailFor (p : Parser α) (sep : Parser β) : Nat → Parser (List α)
  | 0 => pure []
  | fuel + 1 => fun budget c =>
    match sep budget c with
    | .error f c' => if f.committed then .error f c' else .ok [] (c'.resetTo c)
    | .ok _ c' =>
      match p budget c' with
      | .error f c'' => if f.committed then .error f c'' else .ok [] (c''.resetTo c)
      | .ok a c'' =>
        match sepTailFor p sep fuel budget c'' with
        | .ok as c''' => .ok (a :: as) c'''
        | .error f c''' => .error f c'''

/-- One or more `p` separated by `sep`. -/
def sepBy1 (p : Parser α) (sep : Parser β) : Parser (List α) := do
  let a ← p
  let as ← fun budget c => sepTailFor p sep (c.rest.length + 1) budget c
  pure (a :: as)

/-- Zero or more `p` separated by `sep`. -/
def sepBy (p : Parser α) (sep : Parser β) : Parser (List α) :=
  fun budget c =>
    match optional p budget c with
    | .ok none c' => .ok [] c'
    | .ok (some a) c' =>
      match sepTailFor p sep (c'.rest.length + 1) budget c' with
      | .ok as c'' => .ok (a :: as) c''
      | .error f c'' => .error f c''
    | .error f c' => .error f c'

end Parser

end ShaderLink
