import ShaderLink.Parse.Import
import ShaderLink.Syntax.Element

/-!
# The grammar of declarations

The linker needs the names a declaration declares and uses, and the blocks they live in, not
its expressions. So a body is read as a stream of tokens up to its closing bracket, with
nested brackets skipped over and a few tokens noted on the way:

* `{` opens a block, and `for` opens one around its header and body;
* `let`, `var` and `const` declare the next name, which takes effect at the end of its
  statement, so that `let x = x;` refers to an outer `x`;
* in a parameter list, a name followed by `:` declares a parameter;
* any other word that is not reserved starts a reference, a call when `(` follows, a type
  after `:`, `->` or `<`, and a value otherwise;
* a word after `.` is a member access and is not a reference.

Attribute arguments are read the same way, and kept only for the attributes that take
expressions (`@align(N)`, `@workgroup_size(X)`, …).
-/

namespace ShaderLink

namespace Grammar

open ShaderLink.Parser

/-- What a body starts with: parameters, where `name:` declares, or plain code. -/
inductive Mode where
  | params
  | code
deriving DecidableEq, Repr, Inhabited

/-- What a failure to reach a closing bracket expects. -/
def closerDescription : String → String
  | ")" => "`)`"
  | "]" => "`]`"
  | "\x7d" => "`\x7d`"
  | ";" => "`;`"
  | "\x7b" => "`\x7b`"
  | _ => "`>`"

/-- The attributes whose arguments are expressions, and so may use names. -/
def expressionAttributes : List String :=
  ["workgroup_size", "align", "binding", "blend_src", "group", "id", "location", "size"]

/-- The rest of a reference that starts with the word `first`: more segments after `::`,
then, when a call follows, segments after `.` as well (`a.b(` calls `b` of module `a`).
Without a call the dots are member accesses and are left unread. -/
def refPath (first : Token) : Parser (List String × Span × Bool) := do
  let more ← many do
    let _ ← text "::"
    kind .word
  let colonEnd := (more.getLast?.map (·.span.stop)).getD first.span.stop
  let dots : Parser (List Token × Bool) := do
    let dotted ← many do
      let _ ← text "."
      kind .word
    let call ← optional (peek (text "("))
    pure (dotted, call.isSome)
  let (dotted, isCall) ← fun budget c =>
    match dots budget c with
    | .ok (dotted, isCall) c' =>
      if isCall || dotted.isEmpty then .ok (dotted, isCall) c'
      else .ok (dotted, isCall) (c'.resetTo c)
    | .error f c' => .error f c'
  let path := first.text :: more.map (·.text)
  if isCall then
    let stop := (dotted.getLast?.map (·.span.stop)).getD colonEnd
    pure (path ++ dotted.map (·.text), ⟨first.span.start, stop⟩, true)
  else pure (path, ⟨first.span.start, colonEnd⟩, false)

/-- The kind of a reference that is not a call, from the token before it. -/
def refKindAfter (previous : String) : RefKind :=
  if previous == ":" || previous == "->" || previous == "<" then .type else .value

mutual

/-- The arguments of the attribute `name`, if it has any, as scope events. -/
def attributeArgs : Nat → String → Parser (Array ScopeEvent)
  | 0, _ => outOfFuel
  | fuel + 1, name => do
    if (← optional (text "(")).isNone then return #[]
    let events ← bodyUntil fuel ")" .code
    pure (if expressionAttributes.contains name then events else #[])

/-- Reads tokens up to and including `closer`, skipping nested brackets, and reports the
scope events on the way. -/
def bodyUntil : Nat → String → Mode → Parser (Array ScopeEvent)
  | 0, _, _ => outOfFuel
  | fuel + 1, closer, mode => bodyAfter fuel closer mode #[] #[] ""

/-- The rest of a body: the events so far, declarations waiting for the end of their
statement, and the text of the token before. -/
def bodyAfter : Nat → String → Mode → Array ScopeEvent → Array ScopeEvent → String →
    Parser (Array ScopeEvent)
  | 0, _, _, _, _, _ => outOfFuel
  | fuel + 1, closer, mode, events, pending, previous => do
    let t ← commit anyToken (closerDescription closer)
    let next (events pending : Array ScopeEvent) := bodyAfter fuel closer mode events pending t.text
    match t.kind with
    | .symbol =>
      let s := t.text
      if s == closer then return events ++ pending
      else if s == ";" then next (events ++ pending) #[]
      else if s == "\x7b" then
        let inner ← bodyUntil fuel "\x7d" .code
        next ((events.push .openBlock ++ inner).push .closeBlock) pending
      else if s == "(" then
        let inner ← bodyUntil fuel ")" .code
        next (events ++ inner) pending
      else if s == "[" then
        let inner ← bodyUntil fuel "]" .code
        next (events ++ inner) pending
      else if s == ")" || s == "]" || s == "\x7d" then hardError "unbalanced brackets"
      else if s == "@" then
        let name ← commit (kind .word) "attribute name"
        let inner ← attributeArgs fuel name.text
        next (events ++ inner) pending
      else if s == "." then
        let _ ← optional (kind .word)
        next events pending
      else next events pending
    | .word =>
      let w := t.text
      if w == "for" then
        let _ ← commit (text "(") "`(`"
        let header ← bodyUntil fuel ")" .code
        let _ ← commit (text "\x7b") "`\x7b`"
        let body ← bodyUntil fuel "\x7d" .code
        next ((events.push .openBlock ++ header ++ body).push .closeBlock) pending
      else if w == "let" || w == "var" || w == "const" then
        let _ ← optional do
          let _ ← text "<"
          bodyUntil fuel ">" .code
        let name ← commit ident "variable name"
        next events (pending.push (.declare name.text name.span))
      else if isKeyword w then next events pending
      else
        let asReference : Parser (Array ScopeEvent) := do
          let (path, span, isCall) ← refPath t
          let kind := if isCall then RefKind.call else refKindAfter previous
          next (events.push (.reference path span kind)) pending
        if mode == .params then
          -- a parameter is a name followed by its type
          if (← optional (peek (text ":"))).isSome then
            next (events.push (.declare w t.span)) pending
          else asReference
        else asReference
    | _ => next events pending

end

/-- One attribute, `@name` with optional arguments. -/
def attributeItem (fuel : Nat) : Parser (Array ScopeEvent) := do
  let _ ← text "@"
  let name ← commit (kind .word) "attribute name"
  attributeArgs fuel name.text

/-- The attributes in front of a declaration or member. -/
def attributes (fuel : Nat) : Parser (Array ScopeEvent) := do
  let all ← many (attributeItem fuel)
  pure (all.foldl (· ++ ·) #[])

/-- The type of a structure member, up to a `,` or, left unread, the closing `}`; angle
brackets nest. -/
def memberType : Nat → Nat → Array ScopeEvent → Parser (Array ScopeEvent)
  | 0, _, _ => outOfFuel
  | fuel + 1, depth, events => fun budget c =>
    match commit anyToken "`\x7d`" budget c with
    | .error f c' => .error f c'
    | .ok t c' =>
      let sym (s : String) := t.kind == .symbol && t.text == s
      if sym "<" then memberType fuel (depth + 1) events budget c'
      else if sym ">" then memberType fuel (depth - 1) events budget c'
      else if sym "," && depth == 0 then .ok events c'
      else if sym "\x7d" && depth == 0 then .ok events (c'.resetTo c)
      else if sym "(" then
        (do
          let inner ← bodyUntil fuel ")" .code
          memberType fuel depth (events ++ inner)) budget c'
      else if t.kind == .word && !isKeyword t.text then
        (do
          let (path, span, _) ← refPath t
          memberType fuel depth (events.push (.reference path span .type))) budget c'
      else memberType fuel depth events budget c'

/-- The members of a structure after its `{`, up to and including the `}`. -/
def structMembers : Nat → Array ScopeEvent → Parser (Array ScopeEvent)
  | 0, _ => outOfFuel
  | fuel + 1, events => do
    if (← optional (text "\x7d")).isSome then return events
    let attrs ← attributes fuel
    let member ← commit (kind .word) "member name"
    let _ ← commit (text ":") "`:`"
    let ty ← memberType fuel 0 #[]
    structMembers fuel ((events ++ attrs).push (.member member.text member.span) ++ ty)

/-- A declaration without its span and export keyword, filled in by the caller. -/
def DeclSyntax.ofName (kind : DeclKind) (name : Token) (events : Array ScopeEvent) :
    DeclSyntax :=
  ⟨kind, name.text, name.span, default, none, events⟩

/-- `fn name(params) -> result { body }`. -/
def function (fuel : Nat) : Parser DeclSyntax := do
  let _ ← text "fn"
  let name ← commit ident "function name"
  let _ ← commit (text "(") "`(`"
  let params ← bodyUntil fuel ")" .params
  let signature ← bodyUntil fuel "\x7b" .code
  let body ← bodyUntil fuel "\x7d" .code
  pure (DeclSyntax.ofName .function name (params ++ signature ++ body))

/-- `struct Name { members }`. -/
def structDecl (fuel : Nat) : Parser DeclSyntax := do
  let _ ← text "struct"
  let name ← commit ident "struct name"
  let _ ← commit (text "\x7b") "`\x7b`"
  let events ← structMembers fuel #[]
  pure (DeclSyntax.ofName .struct name events)

/-- `var<space> name ...;`, `const name ...;` or `override name ...;`. -/
def globalValue (fuel : Nat) : Parser DeclSyntax := do
  let keyword ← (text "var").orElse ((text "const").orElse (text "override"))
  let kind : DeclKind :=
    if keyword.text == "var" then .var else if keyword.text == "const" then .const else .override
  let _ ← optional do
    let _ ← text "<"
    bodyUntil fuel ">" .code
  let name ← commit ident "name"
  let events ← bodyUntil fuel ";" .code
  pure (DeclSyntax.ofName kind name events)

/-- `alias Name = type;`. -/
def typeAlias (fuel : Nat) : Parser DeclSyntax := do
  let _ ← text "alias"
  let name ← commit ident "alias name"
  let _ ← commit (text "=") "`=`"
  let events ← bodyUntil fuel ";" .code
  pure (DeclSyntax.ofName .typeAlias name events)

/-- A top-level declaration with its attributes, optionally after the `export` keyword;
after that keyword, a declaration must follow. -/
def declaration (fuel : Nat) : Parser DeclSyntax := fun budget c =>
  match optional (spanned (text "export")) budget c with
  | .error f c' => .error f c'
  | .ok keyword c' =>
    let body : Parser (Array ScopeEvent × DeclSyntax) := do
      let attrs ← attributes fuel
      let d ← (function fuel).orElse ((structDecl fuel).orElse
        ((globalValue fuel).orElse (typeAlias fuel)))
      pure (attrs, d)
    match spanned body budget c' with
    | .error f c'' =>
      .error (if keyword.isSome then { f with committed := true } else f) c''
    | .ok ((attrs, d), span) c'' =>
      .ok { d with span, exportKeyword := keyword.map (·.2), events := attrs ++ d.events } c''

end Grammar

end ShaderLink
