import ShaderLink.Parse.Basic

/-!
# Running rules forward

The modules before this one say what a rule does *if* it succeeds. To show that a text is read
at all, and with which value, a rule is run forward: from a cursor, it succeeds with a value
and stops where a given rest of the text is left (`Parser.Parses`), or it fails without
committing, so that an enclosing choice goes on (`Parser.Declines`).

Both hold under every budget that covers the tokens the rule reads. The count of tokens read
only grows along a run, and the budget is checked against it at each token, so a run that ends
within the budget never met it: the cursor it ends at bounds the budget it needs. A sequence of
runs needs the budget of its last one.

Each combinator runs forward when its parts do (`Parses.bind`, `Declines.optional`, …). At the
bottom, a token is read when the lexer scans it at the front of the rest, after at most one
token that the active set skips (`Parser.Ahead`); the scans of the line set are worked out in
`ShaderLink.Proofs.Token.Lexemes`.
-/

namespace ShaderLink

/-- The cursor after a token of kind `k` that covers the next `n` characters. -/
def Cursor.advance (c : Cursor) (k : TokenKind) (n : Nat) : Cursor :=
  { c with
    rest := c.rest.drop n
    pos := c.pos + Text.byteSize (c.rest.take n)
    steps := c.steps + 1
    furthest := if c.set.ignores k then c.furthest else max c.furthest c.pos }

namespace Parser

variable {α β : Type}

/-- Run from `c`, the rule `p` succeeds with `a` at a cursor whose rest is `rest`, with the
token set of `c`, under every budget that covers the steps counted at its end. -/
def Parses (p : Parser α) (c : Cursor) (a : α) (rest : List Char) : Prop :=
  ∃ c', c'.rest = rest ∧ c'.set = c.set ∧ c.steps ≤ c'.steps ∧
    ∀ budget, c'.steps ≤ budget → p budget c = .ok a c'

/-- Run from `c`, the rule `p` fails without committing, under every budget that covers the
steps counted at its end. -/
def Declines (p : Parser α) (c : Cursor) : Prop :=
  ∃ f c', f.committed = false ∧ c'.set = c.set ∧ c.steps ≤ c'.steps ∧
    ∀ budget, c'.steps ≤ budget → p budget c = .error f c'

section Combinators

variable {p q : Parser α} {c : Cursor} {a : α} {rest : List Char}

theorem parses_pure (a : α) (c : Cursor) : Parses (pure a) c a c.rest :=
  ⟨c, rfl, rfl, Nat.le_refl _, fun _ _ => rfl⟩

theorem parses_position (c : Cursor) : Parses position c c.pos c.rest :=
  ⟨c, rfl, rfl, Nat.le_refl _, fun _ _ => rfl⟩

/-- A sequence runs when its first rule does and the rest runs from wherever the first
stops. -/
theorem Parses.bind {f : α → Parser β} {b : β} {mid : List Char} (hp : Parses p c a mid)
    (hf : ∀ c₁ : Cursor, c₁.rest = mid → c₁.set = c.set → Parses (f a) c₁ b rest) :
    Parses (p >>= f) c b rest := by
  obtain ⟨c₁, hr₁, hs₁, hle₁, hrun₁⟩ := hp
  obtain ⟨c₂, hr₂, hs₂, hle₂, hrun₂⟩ := hf c₁ hr₁ hs₁
  refine ⟨c₂, hr₂, hs₂.trans hs₁, Nat.le_trans hle₁ hle₂, fun budget hb => ?_⟩
  simp [Bind.bind, hrun₁ budget (Nat.le_trans hle₂ hb), hrun₂ budget hb]

theorem Parses.bind_declines {f : α → Parser β} {mid : List Char} (hp : Parses p c a mid)
    (hf : ∀ c₁ : Cursor, c₁.rest = mid → c₁.set = c.set → Declines (f a) c₁) :
    Declines (p >>= f) c := by
  obtain ⟨c₁, hr₁, hs₁, hle₁, hrun₁⟩ := hp
  obtain ⟨e, c₂, he, hs₂, hle₂, hrun₂⟩ := hf c₁ hr₁ hs₁
  refine ⟨e, c₂, he, hs₂.trans hs₁, Nat.le_trans hle₁ hle₂, fun budget hb => ?_⟩
  simp [Bind.bind, hrun₁ budget (Nat.le_trans hle₂ hb), hrun₂ budget hb]

theorem Declines.bind {f : α → Parser β} (hp : Declines p c) : Declines (p >>= f) c := by
  obtain ⟨e, c', he, hs, hle, hrun⟩ := hp
  exact ⟨e, c', he, hs, hle, fun budget hb => by simp [Bind.bind, hrun budget hb]⟩

theorem Parses.map {g : α → β} (hp : Parses p c a rest) : Parses (g <$> p) c (g a) rest := by
  obtain ⟨c', hr, hs, hle, hrun⟩ := hp
  exact ⟨c', hr, hs, hle, fun budget hb => by simp only [Functor.map, hrun budget hb]; rfl⟩

theorem Declines.map {g : α → β} (hp : Declines p c) : Declines (g <$> p) c := by
  obtain ⟨e, c', he, hs, hle, hrun⟩ := hp
  exact ⟨e, c', he, hs, hle, fun budget hb => by simp [Functor.map, hrun budget hb]⟩

theorem Parses.commit {what : String} (hp : Parses p c a rest) :
    Parses (Parser.commit p what) c a rest := by
  obtain ⟨c', hr, hs, hle, hrun⟩ := hp
  exact ⟨c', hr, hs, hle, fun budget hb => by simp [Parser.commit, note, cut, hrun budget hb]⟩

theorem Parses.optional (hp : Parses p c a rest) : Parses (Parser.optional p) c (some a) rest := by
  obtain ⟨c', hr, hs, hle, hrun⟩ := hp
  exact ⟨c', hr, hs, hle, fun budget hb => by simp [Parser.optional, hrun budget hb]⟩

/-- A rule that declines leaves `optional` nothing, where it started. -/
theorem Declines.optional (hp : Declines p c) : Parses (Parser.optional p) c none c.rest := by
  obtain ⟨e, c', he, hs, hle, hrun⟩ := hp
  exact ⟨c'.resetTo c, rfl, hs, hle, fun budget hb => by
    simp [Parser.optional, hrun budget hb, he]⟩

theorem Parses.orElse (hp : Parses p c a rest) : Parses (Parser.orElse p q) c a rest := by
  obtain ⟨c', hr, hs, hle, hrun⟩ := hp
  exact ⟨c', hr, hs, hle, fun budget hb => by simp [Parser.orElse, hrun budget hb]⟩

/-- Where the first choice declines, the second runs from where the first started. -/
theorem Declines.orElse (hp : Declines p c)
    (hq : ∀ c₁ : Cursor, c₁.rest = c.rest → c₁.set = c.set → Parses q c₁ a rest) :
    Parses (Parser.orElse p q) c a rest := by
  obtain ⟨e, c₁, he, hs₁, hle₁, hrun₁⟩ := hp
  obtain ⟨c₂, hr₂, hs₂, hle₂, hrun₂⟩ := hq (c₁.resetTo c) rfl hs₁
  refine ⟨c₂, hr₂, hs₂.trans hs₁, Nat.le_trans hle₁ hle₂, fun budget hb => ?_⟩
  simp [Parser.orElse, hrun₁ budget (Nat.le_trans hle₂ hb), he, hrun₂ budget hb]

/-- A choice after the first alternative declines, when what the second reads depends on
where it starts (a token's span, say) and is known only through a property `P`. -/
theorem Declines.orElse_satisfies {P : α → Prop} (hp : Declines p c)
    (hq : ∀ c₁ : Cursor, c₁.rest = c.rest → c₁.set = c.set → ∃ a, P a ∧ Parses q c₁ a rest) :
    ∃ a, P a ∧ Parses (Parser.orElse p q) c a rest := by
  obtain ⟨e, c₁, he, hs₁, hle₁, hrun₁⟩ := hp
  obtain ⟨a, ha, c₂, hr₂, hs₂, hle₂, hrun₂⟩ := hq (c₁.resetTo c) rfl hs₁
  refine ⟨a, ha, c₂, hr₂, hs₂.trans hs₁, Nat.le_trans hle₁ hle₂, fun budget hb => ?_⟩
  simp [Parser.orElse, hrun₁ budget (Nat.le_trans hle₂ hb), he, hrun₂ budget hb]

theorem Declines.orElse_exists (hp : Declines p c)
    (hq : ∀ c₁ : Cursor, c₁.rest = c.rest → c₁.set = c.set → ∃ a, Parses q c₁ a rest) :
    ∃ a, Parses (Parser.orElse p q) c a rest := by
  obtain ⟨a, -, h⟩ := hp.orElse_satisfies (P := fun _ => True) fun c₁ hr₁ hs₁ =>
    (hq c₁ hr₁ hs₁).imp fun _ h => ⟨trivial, h⟩
  exact ⟨a, h⟩

/-- A choice under a map, after the first alternative declines: the value read by the second
does not depend on where its token stands, only what the map keeps of it. -/
theorem Declines.orElse_map {g : α → β} {b : β} (hp : Declines p c)
    (hq : ∀ c₁ : Cursor, c₁.rest = c.rest → c₁.set = c.set → Parses (g <$> q) c₁ b rest) :
    Parses (g <$> Parser.orElse p q) c b rest := by
  obtain ⟨e, c₁, he, hs₁, hle₁, hrun₁⟩ := hp
  obtain ⟨c₂, hr₂, hs₂, hle₂, hrun₂⟩ := hq (c₁.resetTo c) rfl hs₁
  refine ⟨c₂, hr₂, hs₂.trans hs₁, Nat.le_trans hle₁ hle₂, fun budget hb => ?_⟩
  have h := hrun₂ budget hb
  simp only [Functor.map] at h ⊢
  simpa [Parser.orElse, hrun₁ budget (Nat.le_trans hle₂ hb), he] using h

theorem Declines.orElse_declines (hp : Declines p c)
    (hq : ∀ c₁ : Cursor, c₁.rest = c.rest → c₁.set = c.set → Declines q c₁) :
    Declines (Parser.orElse p q) c := by
  obtain ⟨e, c₁, he, hs₁, hle₁, hrun₁⟩ := hp
  obtain ⟨e₂, c₂, he₂, hs₂, hle₂, hrun₂⟩ := hq (c₁.resetTo c) rfl hs₁
  refine ⟨e₂, c₂, he₂, hs₂.trans hs₁, Nat.le_trans hle₁ hle₂, fun budget hb => ?_⟩
  simp [Parser.orElse, hrun₁ budget (Nat.le_trans hle₂ hb), he, hrun₂ budget hb]

theorem Parses.verify {test : α → Bool} (hp : Parses p c a rest) (ht : test a = true) :
    Parses (Parser.verify p test) c a rest := by
  obtain ⟨c', hr, hs, hle, hrun⟩ := hp
  exact ⟨c', hr, hs, hle, fun budget hb => by simp [Parser.verify, hrun budget hb, ht]⟩

/-- A value that fails the test makes `verify` decline. -/
theorem Parses.verify_declines {test : α → Bool} (hp : Parses p c a rest)
    (ht : test a = false) : Declines (Parser.verify p test) c := by
  obtain ⟨c', hr, hs, hle, hrun⟩ := hp
  exact ⟨Failure.decline, c'.resetTo c, rfl, hs, hle, fun budget hb => by
    simp [Parser.verify, hrun budget hb, ht]⟩

/-- A rule run with another token set, which is restored at its end. -/
theorem Parses.withSet {set : TokenSet} (hp : Parses p { c with set } a rest) :
    Parses (Parser.withSet set p) c a rest := by
  obtain ⟨c', hr, hs, hle, hrun⟩ := hp
  exact ⟨{ c' with set := c.set }, hr, rfl, hle, fun budget hb => by
    simp [Parser.withSet, hrun budget hb]⟩

/-- `notFollowedBy p` succeeds in place where `p` declines. -/
theorem Declines.notFollowedBy (hp : Declines p c) :
    Parses (Parser.notFollowedBy p) c () c.rest := by
  obtain ⟨e, c', he, hs, hle, hrun⟩ := hp
  exact ⟨c'.resetTo c, rfl, hs, hle, fun budget hb => by
    simp [Parser.notFollowedBy, hrun budget hb, he]⟩

end Combinators

/-! ### Reading tokens -/

section Tokens

variable {c : Cursor} {k : TokenKind} {n : Nat}

/-- A token that the lexer scans at the front of the rest is read, one step counted. -/
theorem lexOne_of_scan {budget : Nat} (h : scan c.set c.rest = .token k n)
    (hb : c.steps + 1 ≤ budget) :
    lexOne budget c = .ok ⟨k, String.ofList (c.rest.take n),
      ⟨c.pos, c.pos + Text.byteSize (c.rest.take n)⟩⟩ (c.advance k n) := by
  have : ¬ budget < c.steps + 1 := Nat.not_lt.2 hb
  simp [lexOne, this, h, Cursor.advance]

/-- At the end of the text no token is read. -/
theorem declines_lexOne (h : c.rest = []) : Declines lexOne c := by
  refine ⟨.decline, { c with steps := c.steps + 1 }, rfl, rfl, Nat.le_succ _,
    fun budget hb => ?_⟩
  have : ¬ budget < c.steps + 1 := Nat.not_lt.2 hb
  simp [lexOne, this, h, scan]

theorem declines_anyToken (h : c.rest = []) : Declines anyToken c := by
  obtain ⟨e, c', he, hs, hle, hrun⟩ := declines_lexOne h
  refine ⟨e, c', he, hs, hle, fun budget hb => ?_⟩
  show anyTokenFrom budget c = _
  rw [anyTokenFrom]
  split
  · next h' => rw [hrun budget hb] at h'; cases h'
  · next h' => rw [hrun budget hb] at h'; cases h'; rfl

/-- Read with the token set `set`, the text `cs` starts with a token of kind `k` that the set
does not skip, spelled `w`, after at most one token that it does skip (`gap`); `rest`
follows. -/
def Ahead (set : TokenSet) (cs : List Char) (k : TokenKind) (w rest : List Char) : Prop :=
  set.ignores k = false ∧ scan set (w ++ rest) = .token k w.length ∧
    ∃ gap, cs = gap ++ w ++ rest ∧
      (gap = [] ∨ ∃ g, scan set cs = .token g gap.length ∧ set.ignores g = true)

/-- A fact about the text ahead, moved onto a cursor that stands at that text. -/
theorem Ahead.at {set : TokenSet} {cs w rest : List Char} (h : Ahead set cs k w rest)
    (hc : c.rest = cs) (hset : c.set = set) : Ahead c.set c.rest k w rest := by
  rw [hc, hset]
  exact h

theorem ahead_of_scan {set : TokenSet} {w rest : List Char} (hk : set.ignores k = false)
    (h : scan set (w ++ rest) = .token k w.length) : Ahead set (w ++ rest) k w rest :=
  ⟨hk, h, [], rfl, .inl rfl⟩

/-- A token that the lexer scans first and does not skip is what `anyToken` reads. -/
theorem parses_anyToken_first (h : scan c.set c.rest = .token k n)
    (hk : c.set.ignores k = false) :
    Parses anyToken c ⟨k, String.ofList (c.rest.take n),
      ⟨c.pos, c.pos + Text.byteSize (c.rest.take n)⟩⟩ (c.rest.drop n) := by
  refine ⟨c.advance k n, rfl, rfl, Nat.le_succ _, fun budget hb => ?_⟩
  show anyTokenFrom budget c = _
  rw [anyTokenFrom]
  split
  · next h' => rw [lexOne_of_scan h hb] at h'; cases h'; simp [hk]
  · next h' => rw [lexOne_of_scan h hb] at h'; cases h'

/-- A token that the set skips is passed over before `anyToken` reads. -/
theorem Parses.anyToken_after_skip {t : Token} {rest : List Char}
    (h : scan c.set c.rest = .token k n) (hk : c.set.ignores k = true)
    (hnext : ∀ c₁ : Cursor, c₁.rest = c.rest.drop n → c₁.set = c.set →
      c₁.pos = c.pos + Text.byteSize (c.rest.take n) → Parses anyToken c₁ t rest) :
    Parses anyToken c t rest := by
  obtain ⟨c₂, hr₂, hs₂, hle₂, hrun₂⟩ := hnext (c.advance k n) rfl rfl rfl
  refine ⟨c₂, hr₂, hs₂, Nat.le_trans (Nat.le_succ _) hle₂, fun budget hb => ?_⟩
  show anyTokenFrom budget c = _
  rw [anyTokenFrom]
  split
  · next h' =>
    rw [lexOne_of_scan h (Nat.le_trans hle₂ hb)] at h'
    cases h'
    rw [if_pos hk]
    exact hrun₂ budget hb
  · next h' => rw [lexOne_of_scan h (Nat.le_trans hle₂ hb)] at h'; cases h'

/-- The token ahead is what `anyToken` reads. -/
theorem Ahead.parses_anyToken {w rest : List Char} (h : Ahead c.set c.rest k w rest) :
    ∃ span, Parses anyToken c ⟨k, String.ofList w, span⟩ rest := by
  obtain ⟨hk, hscan, gap, hcs, hgap⟩ := h
  have first : ∀ c₁ : Cursor, c₁.rest = w ++ rest → c₁.set = c.set →
      Parses anyToken c₁ ⟨k, String.ofList w, ⟨c₁.pos, c₁.pos + Text.byteSize w⟩⟩ rest := by
    intro c₁ hr hs
    have := parses_anyToken_first (c := c₁) (by rw [hr, hs]; exact hscan) (by rw [hs]; exact hk)
    simpa [hr] using this
  rcases hgap with rfl | ⟨g, hg, hgk⟩
  · exact ⟨_, first c (by simpa using hcs) rfl⟩
  · -- the skipped token is the gap, and the token ahead follows it
    refine ⟨⟨c.pos + Text.byteSize gap, c.pos + Text.byteSize gap + Text.byteSize w⟩,
      Parses.anyToken_after_skip hg hgk fun c₁ hr hs hpos => ?_⟩
    have := first c₁ (by simp [hr, hcs]) hs
    rw [hpos] at this
    simpa [hcs] using this

/-- The token ahead, when it has kind `k`. -/
theorem Ahead.parses_kind {w rest : List Char} (h : Ahead c.set c.rest k w rest) :
    ∃ span, Parses (kind k) c ⟨k, String.ofList w, span⟩ rest := by
  obtain ⟨span, hp⟩ := h.parses_anyToken
  exact ⟨span, hp.verify (by simp)⟩

theorem Ahead.declines_kind {k' : TokenKind} {w rest : List Char} (h : Ahead c.set c.rest k w rest)
    (hk : k ≠ k') : Declines (kind k') c := by
  obtain ⟨span, hp⟩ := h.parses_anyToken
  exact hp.verify_declines (by simp [hk])

/-- The token ahead, when it is a word, symbol or directive spelled `s`. -/
theorem Ahead.parses_text {s : String} {rest : List Char} (h : Ahead c.set c.rest k s.toList rest)
    (hk : (k == .word || k == .symbol || k == .directive) = true) :
    ∃ t, Parses (text s) c t rest := by
  obtain ⟨span, hp⟩ := h.parses_anyToken
  exact ⟨_, hp.verify (by simpa using hk)⟩

theorem Ahead.declines_text {s : String} {w rest : List Char} (h : Ahead c.set c.rest k w rest)
    (hne : (String.ofList w == s && (k == .word || k == .symbol || k == .directive)) = false) :
    Declines (text s) c := by
  obtain ⟨span, hp⟩ := h.parses_anyToken
  exact hp.verify_declines hne

theorem declines_text_end {s : String} (h : c.rest = []) : Declines (text s) c := by
  obtain ⟨e, c', he, hs, hle, hrun⟩ := declines_anyToken h
  exact ⟨e, c', he, hs, hle, fun budget hb => by simp [text, Parser.verify, hrun budget hb]⟩

/-- Skipping finds a token that is not skipped at once, and stays before it. -/
theorem parses_skipIgnored_first (h : scan c.set c.rest = .token k n)
    (hk : c.set.ignores k = false) : Parses skipIgnored c () c.rest := by
  refine ⟨(c.advance k n).resetTo c, rfl, rfl, Nat.le_succ _, fun budget hb => ?_⟩
  show skipFrom budget c = _
  rw [skipFrom]
  split
  · next h' => rw [lexOne_of_scan h hb] at h'; cases h'; simp [hk]
  · next h' => rw [lexOne_of_scan h hb] at h'; cases h'

/-- At the end of the text there is nothing to skip. -/
theorem parses_skipIgnored_end (h : c.rest = []) : Parses skipIgnored c () [] := by
  refine ⟨{ c with steps := c.steps + 1 }.resetTo c, h, rfl, Nat.le_succ _, fun budget hb => ?_⟩
  have : ¬ budget < c.steps + 1 := Nat.not_lt.2 hb
  show skipFrom budget c = _
  rw [skipFrom]
  split
  · next h' => simp [lexOne, this, h, scan] at h'
  · next h' =>
    simp only [lexOne, this, if_false, h, scan] at h'
    cases h'
    rfl

/-- A rule with the span of what it read: the span is fixed by the run. -/
theorem Parses.spanned {p : Parser α} {a : α} {rest : List Char}
    (hskip : Parses skipIgnored c () c.rest)
    (hp : ∀ c₁ : Cursor, c₁.rest = c.rest → c₁.set = c.set → Parses p c₁ a rest) :
    ∃ span, Parses (spanned p) c (a, span) rest := by
  obtain ⟨c₁, hr₁, hs₁, hle₁, hrun₁⟩ := hskip
  obtain ⟨c₂, hr₂, hs₂, hle₂, hrun₂⟩ := hp c₁ hr₁ hs₁
  refine ⟨⟨c₁.pos, c₂.pos⟩, c₂, hr₂, hs₂.trans hs₁, Nat.le_trans hle₁ hle₂, fun budget hb => ?_⟩
  simp [Parser.spanned, Bind.bind, hrun₁ budget (Nat.le_trans hle₂ hb), position,
    hrun₂ budget hb, Pure.pure]

/-- A rule under `spanned`, followed by what uses the value and its span. -/
theorem Parses.spanned_bind {p : Parser α} {a : α} {m : List Char} {f : α × Span → Parser β}
    {g : Span → β} (hskip : Parses skipIgnored c () c.rest)
    (hp : ∀ c₁ : Cursor, c₁.rest = c.rest → c₁.set = c.set → Parses p c₁ a m)
    (hf : ∀ span (c₂ : Cursor), c₂.rest = m → c₂.set = c.set → Parses (f (a, span)) c₂ (g span) rest) :
    ∃ span, Parses (Parser.spanned p >>= f) c (g span) rest := by
  obtain ⟨span, hsp⟩ := Parses.spanned hskip hp
  exact ⟨span, hsp.bind fun c₂ hr₂ hs₂ => hf span c₂ hr₂ hs₂⟩

theorem Declines.spanned {p : Parser α} (hskip : Parses skipIgnored c () c.rest)
    (hp : ∀ c₁ : Cursor, c₁.rest = c.rest → c₁.set = c.set → Declines p c₁) :
    Declines (spanned p) c := by
  obtain ⟨c₁, hr₁, hs₁, hle₁, hrun₁⟩ := hskip
  obtain ⟨e, c₂, he, hs₂, hle₂, hrun₂⟩ := hp c₁ hr₁ hs₁
  refine ⟨e, c₂, he, hs₂.trans hs₁, Nat.le_trans hle₁ hle₂, fun budget hb => ?_⟩
  simp [Parser.spanned, Bind.bind, hrun₁ budget (Nat.le_trans hle₂ hb), position,
    hrun₂ budget hb]

end Tokens

/-! ### Repetition -/

section Repetition

variable {p : Parser α} {sep : Parser β} {c : Cursor} {a : α} {as : List α}
  {rest mid : List Char}

theorem Parses.manyFor_cons {fuel : Nat} (hp : Parses p c a mid)
    (hmore : ∀ c₁ : Cursor, c₁.rest = mid → c₁.set = c.set → Parses (manyFor p fuel) c₁ as rest) :
    Parses (manyFor p (fuel + 1)) c (a :: as) rest := by
  obtain ⟨c₁, hr₁, hs₁, hle₁, hrun₁⟩ := hp
  obtain ⟨c₂, hr₂, hs₂, hle₂, hrun₂⟩ := hmore c₁ hr₁ hs₁
  refine ⟨c₂, hr₂, hs₂.trans hs₁, Nat.le_trans hle₁ hle₂, fun budget hb => ?_⟩
  simp [manyFor, hrun₁ budget (Nat.le_trans hle₂ hb), hrun₂ budget hb]

/-- A repetition stops where its rule declines. -/
theorem Declines.manyFor (hp : Declines p c) (fuel : Nat) :
    Parses (manyFor p (fuel + 1)) c [] c.rest := by
  obtain ⟨e, c', he, hs, hle, hrun⟩ := hp
  exact ⟨c'.resetTo c, rfl, hs, hle, fun budget hb => by simp [Parser.manyFor, hrun budget hb, he]⟩

/-- A repetition whose rule declines at once reads nothing, whatever its fuel. -/
theorem Declines.manyFor_any (hp : Declines p c) :
    ∀ fuel, Parses (Parser.manyFor p fuel) c [] c.rest
  | 0 => parses_pure _ _
  | fuel + 1 => hp.manyFor fuel

/-- `many` is a repetition with one round more than the text has characters. -/
theorem parses_many_iff {p : Parser α} :
    Parses (many p) c as rest ↔ Parses (manyFor p (c.rest.length + 1)) c as rest := Iff.rfl

theorem Declines.sepTailFor (hsep : Declines sep c) (fuel : Nat) :
    Parses (sepTailFor p sep (fuel + 1)) c [] c.rest := by
  obtain ⟨e, c', he, hs, hle, hrun⟩ := hsep
  exact ⟨c'.resetTo c, rfl, hs, hle, fun budget hb => by simp [Parser.sepTailFor, hrun budget hb, he]⟩

theorem Parses.sepTailFor_cons {s : β} {after : List Char} {fuel : Nat} (hsep : Parses sep c s mid)
    (hp : ∀ c₁ : Cursor, c₁.rest = mid → c₁.set = c.set → Parses p c₁ a after)
    (hmore : ∀ c₂ : Cursor, c₂.rest = after → c₂.set = c.set →
      Parses (sepTailFor p sep fuel) c₂ as rest) :
    Parses (sepTailFor p sep (fuel + 1)) c (a :: as) rest := by
  obtain ⟨c₁, hr₁, hs₁, hle₁, hrun₁⟩ := hsep
  obtain ⟨c₂, hr₂, hs₂, hle₂, hrun₂⟩ := hp c₁ hr₁ hs₁
  obtain ⟨c₃, hr₃, hs₃, hle₃, hrun₃⟩ := hmore c₂ hr₂ (hs₂.trans hs₁)
  refine ⟨c₃, hr₃, hs₃.trans (hs₂.trans hs₁), by omega, fun budget hb => ?_⟩
  simp [sepTailFor, hrun₁ budget (by omega), hrun₂ budget (by omega), hrun₃ budget hb]

theorem Parses.sepBy1 (hp : Parses p c a mid)
    (htail : ∀ c₁ : Cursor, c₁.rest = mid → c₁.set = c.set →
      Parses (sepTailFor p sep (mid.length + 1)) c₁ as rest) :
    Parses (Parser.sepBy1 p sep) c (a :: as) rest :=
  hp.bind fun c₁ hr₁ hs₁ =>
    (show Parses (sepTailFor p sep (c₁.rest.length + 1)) c₁ as rest by
      rw [hr₁]; exact htail c₁ hr₁ hs₁).bind fun _ hr₂ _ => hr₂ ▸ parses_pure _ _

theorem Parses.sepBy (hp : Parses p c a mid)
    (htail : ∀ c₁ : Cursor, c₁.rest = mid → c₁.set = c.set →
      Parses (sepTailFor p sep (mid.length + 1)) c₁ as rest) :
    Parses (Parser.sepBy p sep) c (a :: as) rest := by
  obtain ⟨c₁, hr₁, hs₁, hle₁, hrun₁⟩ := hp.optional
  obtain ⟨c₂, hr₂, hs₂, hle₂, hrun₂⟩ := htail c₁ hr₁ hs₁
  refine ⟨c₂, hr₂, hs₂.trans hs₁, Nat.le_trans hle₁ hle₂, fun budget hb => ?_⟩
  simp [Parser.sepBy, hrun₁ budget (Nat.le_trans hle₂ hb), hr₁, hrun₂ budget hb]

theorem Declines.sepBy (hp : Declines p c) : Parses (Parser.sepBy p sep) c [] c.rest := by
  obtain ⟨c₁, hr₁, hs₁, hle₁, hrun₁⟩ := hp.optional
  exact ⟨c₁, hr₁, hs₁, hle₁, fun budget hb => by simp [Parser.sepBy, hrun₁ budget hb]⟩

end Repetition

end Parser

end ShaderLink
