import ShaderLink.Proofs.Token.Lexemes
import ShaderLink.Proofs.Syntax.ImportLeaves

/-!
# Import trees as written

The texts that the two import spellings are made of, as data: a module path is relative
markers and words with a separator between each two (`PathText`); an import tree in tree
syntax is a name with optional arguments and renaming, a wildcard with optional renaming, a
braced list of trees, each after its own markers, laid out on one line or one item per line,
or a word and a separator in front of a tree (`TreeText`). `spelling` writes each out.

A written tree means an `ImportTree` once the path in front of it is known (`TreeText.under`):
the words of nested paths gather into that path, and the node they lead to carries the whole
of it. Written after a path `lead`, the tree has the leaves of the tree written alone with
`lead` in front of each (`TreeText.leavesUnder_under`).

Writing a module path and then a tree, `P/T`, is again a written tree (`PathText.leading`).

Every tree that is written has a character that can start one in front (`TreeText.startsTree`),
and the nesting of its rules is bounded by twice its length (`TreeText.depth_le`), which is how
much fuel reading it takes.
-/

namespace ShaderLink

/-- How two segments of a path are separated: `/`, `::` or `.`. -/
inductive PathSeparator where
  | slash
  | colons
  | dot
deriving DecidableEq, Repr

/-- How a separator is written. -/
def PathSeparator.spelling : PathSeparator → String
  | slash => "/"
  | colons => "::"
  | dot => "."

/-- A relative marker in front of a path: `./` or `../`. -/
inductive PathMarker where
  | here
  | up
deriving DecidableEq, Repr

namespace PathMarker

/-- How a marker is written. -/
def spelling : PathMarker → String
  | here => "./"
  | up => "../"

/-- The segment a marker stands for in a path. -/
def segment : PathMarker → String
  | here => "."
  | up => ".."

end PathMarker

/-- Markers written one after another. -/
def markersSpelling (ms : List PathMarker) : String := String.join (ms.map PathMarker.spelling)

/-- How the items of a braced list are laid out: `{a, b}`, or one item per line, each with a
comma after it. -/
inductive ListLayout where
  | inline
  | lines
deriving DecidableEq, Repr

mutual

/-- An import tree as tree syntax writes it. -/
inductive TreeText where
  /-- `name`, `name(args)`, `name as other`. -/
  | simple (name : String) (args : Option (List String)) (asName : Option String)
  /-- `*`, `* as other`. -/
  | wildcard (asName : Option String)
  /-- `{...}`. -/
  | list (layout : ListLayout) (items : ItemsText)
  /-- `segment/tree`, `segment::tree`, `segment.tree`. -/
  | path (segment : String) (sep : PathSeparator) (tail : TreeText)

/-- The items of a braced list, each with the relative markers in front of it. -/
inductive ItemsText where
  | nil
  | cons (markers : List PathMarker) (item : TreeText) (rest : ItemsText)

end

/-- Arguments as written, `(a, 4)`, if any. -/
def argsSpelling : Option (List String) → String
  | none => ""
  | some [] => "()"
  | some (a :: as) => "(" ++ a ++ String.join (as.map (", " ++ ·)) ++ ")"

/-- A renaming as written, ` as other`, if any. -/
def renameSpelling : Option String → String
  | none => ""
  | some name => " as " ++ name

mutual

/-- How a tree is written. -/
def TreeText.spelling : TreeText → String
  | .simple name args asName => name ++ argsSpelling args ++ renameSpelling asName
  | .wildcard asName => "*" ++ renameSpelling asName
  | .list .inline items => "\x7b" ++ items.inlineSpelling ++ "\x7d"
  | .list .lines items => "\x7b" ++ items.linesSpelling ++ "\n\x7d"
  | .path segment sep tail => segment ++ sep.spelling ++ tail.spelling

/-- Items on one line: `a, b, c`. -/
def ItemsText.inlineSpelling : ItemsText → String
  | .nil => ""
  | .cons ms t rest => markersSpelling ms ++ t.spelling ++ rest.inlineRest

/-- The items after the first on one line, each after a comma: `, b, c`. -/
def ItemsText.inlineRest : ItemsText → String
  | .nil => ""
  | .cons ms t rest => ", " ++ markersSpelling ms ++ t.spelling ++ rest.inlineRest

/-- Items one per line, indented, each with its comma. -/
def ItemsText.linesSpelling : ItemsText → String
  | .nil => ""
  | .cons ms t rest => "\n  " ++ markersSpelling ms ++ t.spelling ++ "," ++ rest.linesSpelling

end

mutual

/-- The tree a written tree means after the path `lead`: nested paths add their words to it,
and the node they reach carries all of it. -/
def TreeText.under (lead : List String) : TreeText → ImportTree
  | .simple name args asName => (ImportTree.simple name asName args).withLead lead
  | .wildcard asName => (ImportTree.wildcard asName).withLead lead
  | .list _ items => (ImportTree.list items.trees).withLead lead
  | .path segment _ tail => tail.under (lead ++ [segment])

/-- The trees of the items of a list, each under its own markers. -/
def ItemsText.trees : ItemsText → List ImportTree
  | .nil => []
  | .cons ms t rest => t.under (ms.map PathMarker.segment) :: rest.trees

end

/-- An argument is a word or a numeral. -/
def isArgument (a : String) : Bool := Text.isWord a.toList || Text.isNumeral a.toList

mutual

/-- All names, renamings and path segments of a written tree are words, and all arguments
words or numerals. -/
def TreeText.wellFormed : TreeText → Bool
  | .simple name args asName =>
    Text.isWord name.toList && args.all (·.all isArgument) && asName.all (Text.isWord ·.toList)
  | .wildcard asName => asName.all (Text.isWord ·.toList)
  | .list _ items => items.wellFormed
  | .path segment _ tail => Text.isWord segment.toList && tail.wellFormed

/-- All items of a written list are well formed. -/
def ItemsText.wellFormed : ItemsText → Bool
  | .nil => true
  | .cons _ t rest => t.wellFormed && rest.wellFormed

end

/-- Whether a written tree is a path in front of another. -/
def TreeText.isPath : TreeText → Bool
  | .path .. => true
  | _ => false

/-- A module path as written: relative markers, a first word, then a separator and a word,
any number of times. -/
structure PathText where
  markers : List PathMarker
  first : String
  rest : List (PathSeparator × String)

namespace PathText

/-- The words after the first, each after its separator. -/
def restSpelling (rest : List (PathSeparator × String)) : String :=
  String.join (rest.map fun s => s.1.spelling ++ s.2)

/-- How a module path is written. -/
def spelling (p : PathText) : String := markersSpelling p.markers ++ p.first ++ restSpelling p.rest

/-- The segments of a module path: one for each marker, then the words. -/
def segments (p : PathText) : List String :=
  p.markers.map PathMarker.segment ++ p.first :: p.rest.map (·.2)

/-- The segments a module path declares: a last segment `wgsl` or `wesl` after another one is a
file extension, and is dropped. -/
def declared (p : PathText) : List String :=
  if 1 < p.segments.length &&
      (p.segments.getLast? == some "wgsl" || p.segments.getLast? == some "wesl") then
    p.segments.dropLast
  else p.segments

theorem declared_of_not_extension {p : PathText} (hext : 1 < p.segments.length →
    p.segments.getLast? ≠ some "wgsl" ∧ p.segments.getLast? ≠ some "wesl") :
    p.declared = p.segments := by
  unfold declared
  rw [if_neg]
  by_cases hlen : 1 < p.segments.length
  · simp [hlen, (hext hlen).1, (hext hlen).2]
  · simp [hlen]

/-- All words of a module path are words. -/
def wellFormed (p : PathText) : Bool :=
  Text.isWord p.first.toList && p.rest.all (Text.isWord ·.2.toList)

/-- The words `first` and `rest` in front of a tree, written `first::a/b/tree`: the last word
is followed by a slash. -/
def leading (first : String) : List (PathSeparator × String) → TreeText → TreeText
  | [], t => .path first .slash t
  | (s, w) :: rest, t => .path first s (leading w rest t)

end PathText

/-! ### What a written tree means -/

namespace TreeText

/-- A written tree after a path has the leaves of the tree written alone, each with the path
in front. -/
theorem leavesUnder_under : ∀ (t : TreeText) (m l : List String),
    ImportTree.leavesUnder m (t.under l) = ImportTree.leavesUnder (m ++ l) (t.under [])
  | .simple .., m, l => by simp [under, ImportTree.leavesUnder_withLead]
  | .wildcard _, m, l => by simp [under, ImportTree.leavesUnder_withLead]
  | .list _ _, m, l => by simp [under, ImportTree.leavesUnder_withLead]
  | .path segment _ tail, m, l => by
    -- the words of the path join the lead in both readings
    simp only [under, leavesUnder_under tail m, List.nil_append, leavesUnder_under tail (m ++ l),
      List.append_assoc]

theorem leaves_withLead_under (t : TreeText) (l : List String) :
    ((t.under []).withLead l).leaves = (t.under l).leaves := by
  simp [ImportTree.leaves_eq_leavesUnder, ImportTree.leavesUnder_withLead, leavesUnder_under t [] l]

/-- A tree that is no path means, after a path, that path in front of what it means alone. -/
theorem withLead_under_of_not_path {t : TreeText} (ht : t.isPath = false) (l : List String) :
    (t.under []).withLead l = t.under l := by
  cases t with
  | path => simp [isPath] at ht
  | _ => simp [under, ImportTree.withLead]

end TreeText

namespace PathText

theorem under_leading (first : String) :
    ∀ (rest : List (PathSeparator × String)) (t : TreeText) (lead : List String),
      (leading first rest t).under lead = t.under (lead ++ first :: rest.map (·.2))
  | [], t, lead => by simp [leading, TreeText.under]
  | (s, w) :: rest, t, lead => by
    simp [leading, TreeText.under, under_leading w rest t]

theorem spelling_leading (first : String) :
    ∀ (rest : List (PathSeparator × String)) (t : TreeText),
      (leading first rest t).spelling = first ++ restSpelling rest ++ "/" ++ t.spelling
  | [], t => by simp [leading, TreeText.spelling, restSpelling, PathSeparator.spelling]
  | (s, w) :: rest, t => by
    simp [leading, TreeText.spelling, restSpelling, spelling_leading w rest t,
      String.append_assoc]

theorem wellFormed_leading {first : String} :
    ∀ {rest : List (PathSeparator × String)} {t : TreeText}, Text.isWord first.toList = true →
      rest.all (Text.isWord ·.2.toList) = true → t.wellFormed = true →
      (leading first rest t).wellFormed = true
  | [], _, hfirst, _, ht => by simp [leading, TreeText.wellFormed, hfirst, ht]
  | (_, w) :: _, _, hfirst, hrest, ht => by
    simp only [List.all_cons, Bool.and_eq_true] at hrest
    simp [leading, TreeText.wellFormed, hfirst, wellFormed_leading hrest.1 hrest.2 ht]

end PathText

/-! ### The first character and the depth of a written tree -/

/-- A character that can start a written tree: a wildcard, an opening brace, or the start of a
word. -/
def startsTree (c : Char) : Bool := c == '*' || c == '\x7b' || c == '_' || Text.isIdentStart c

theorem Text.isWord_cons {w : List Char} (hw : Text.isWord w = true) :
    ∃ c cs, w = c :: cs ∧ startsTree c = true := by
  match w, hw with
  | c :: cs, hw =>
    refine ⟨c, cs, rfl, ?_⟩
    by_cases hu : c = '_'
    · simp [startsTree, hu]
    · have : Text.isIdentStart c = true ∧ ∀ x ∈ cs, Text.isIdentContinue x = true := by
        simpa [Text.isWord, hu] using hw
      simp [startsTree, this.1]

/-- What cannot start a written tree: a blank, a slash, a dot or a digit. -/
theorem startsTree_plain {c : Char} (h : startsTree c = true) :
    Text.isBlank c = false ∧ c ≠ '/' ∧ c ≠ '.' ∧ Lexer.isDigit c = false := by
  simp only [startsTree, Bool.or_eq_true, beq_iff_eq] at h
  rcases h with ((rfl | rfl) | rfl) | h
  · decide
  · decide
  · decide
  · refine ⟨Text.isIdentStart_isBlank h, ?_, ?_, Text.isIdentStart_isDigit h⟩ <;>
      · rintro rfl; exact absurd h (by decide)

theorem TreeText.spelling_cons {t : TreeText} (ht : t.wellFormed = true) :
    ∃ c cs, t.spelling.toList = c :: cs ∧ startsTree c = true := by
  cases t with
  | simple name args asName =>
    simp only [wellFormed, Bool.and_eq_true] at ht
    obtain ⟨c, cs, hname, hc⟩ := Text.isWord_cons ht.1.1
    exact ⟨c, cs ++ (argsSpelling args ++ renameSpelling asName).toList,
      by simp [spelling, hname], hc⟩
  | wildcard asName => exact ⟨'*', (renameSpelling asName).toList, by simp [spelling], rfl⟩
  | list layout items =>
    cases layout
    · exact ⟨'\x7b', (items.inlineSpelling ++ "\x7d").toList, by simp [spelling], rfl⟩
    · exact ⟨'\x7b', (items.linesSpelling ++ "\n\x7d").toList, by simp [spelling], rfl⟩
  | path segment sep tail =>
    simp only [wellFormed, Bool.and_eq_true] at ht
    obtain ⟨c, cs, hseg, hc⟩ := Text.isWord_cons ht.1
    exact ⟨c, cs ++ (sep.spelling ++ tail.spelling).toList, by simp [spelling, hseg], hc⟩

mutual

/-- How deeply the rules that read a written tree nest, and so how much fuel they take. -/
def TreeText.depth : TreeText → Nat
  | .simple .. => 1
  | .wildcard _ => 1
  | .list _ items => items.depth + 2
  | .path _ _ tail => tail.depth + 1

/-- How deeply the rules that read the items of a list nest: one round for each item and one
for the closing brace, each round reading an item below it. -/
def ItemsText.depth : ItemsText → Nat
  | .nil => 1
  | .cons _ t rest => max (t.depth + 1) rest.depth + 1

end

theorem TreeText.length_pos {t : TreeText} (ht : t.wellFormed = true) : 0 < t.spelling.length := by
  obtain ⟨c, cs, h, -⟩ := spelling_cons ht
  rw [← String.length_toList, h]
  simp

mutual

theorem TreeText.depth_le : ∀ t : TreeText, t.wellFormed = true → t.depth ≤ 2 * t.spelling.length
  | .simple name args asName, ht => by
    have := TreeText.length_pos ht
    simp only [TreeText.depth]
    omega
  | .wildcard _, _ => by
    have : ("*" : String).length = 1 := rfl
    simp only [TreeText.depth, TreeText.spelling, String.length_append]
    omega
  | .list .inline items, ht => by
    have := ItemsText.depth_le_inline items ht
    have : ("\x7b" : String).length = 1 := rfl
    have : ("\x7d" : String).length = 1 := rfl
    simp only [TreeText.depth, TreeText.spelling, String.length_append]
    omega
  | .list .lines items, ht => by
    have := ItemsText.depth_le_lines items ht
    have : ("\x7b" : String).length = 1 := rfl
    have : ("\n\x7d" : String).length = 2 := rfl
    simp only [TreeText.depth, TreeText.spelling, String.length_append]
    omega
  | .path segment sep tail, ht => by
    simp only [TreeText.wellFormed, Bool.and_eq_true] at ht
    have := TreeText.depth_le tail ht.2
    have hseg : 0 < segment.length := by
      obtain ⟨c, cs, h, -⟩ := Text.isWord_cons ht.1
      rw [← String.length_toList, h]
      simp
    simp only [TreeText.depth, TreeText.spelling, String.length_append]
    omega

theorem ItemsText.depth_le_inline : ∀ items : ItemsText, items.wellFormed = true →
    items.depth ≤ 2 * items.inlineSpelling.length + 2
  | .nil, _ => by simp [ItemsText.depth]
  | .cons ms t rest, h => by
    simp only [ItemsText.wellFormed, Bool.and_eq_true] at h
    have := TreeText.depth_le t h.1
    have := TreeText.length_pos h.1
    have := ItemsText.depth_le_inlineRest rest h.2
    simp only [ItemsText.depth, ItemsText.inlineSpelling, String.length_append]
    omega

theorem ItemsText.depth_le_inlineRest : ∀ items : ItemsText, items.wellFormed = true →
    items.depth ≤ 2 * items.inlineRest.length + 2
  | .nil, _ => by simp [ItemsText.depth]
  | .cons ms t rest, h => by
    simp only [ItemsText.wellFormed, Bool.and_eq_true] at h
    have := TreeText.depth_le t h.1
    have := TreeText.length_pos h.1
    have := ItemsText.depth_le_inlineRest rest h.2
    simp only [ItemsText.depth, ItemsText.inlineRest, String.length_append]
    omega

theorem ItemsText.depth_le_lines : ∀ items : ItemsText, items.wellFormed = true →
    items.depth ≤ 2 * items.linesSpelling.length + 2
  | .nil, _ => by simp [ItemsText.depth]
  | .cons ms t rest, h => by
    simp only [ItemsText.wellFormed, Bool.and_eq_true] at h
    have := TreeText.depth_le t h.1
    have := TreeText.length_pos h.1
    have := ItemsText.depth_le_lines rest h.2
    simp only [ItemsText.depth, ItemsText.linesSpelling, String.length_append]
    omega

end

end ShaderLink
