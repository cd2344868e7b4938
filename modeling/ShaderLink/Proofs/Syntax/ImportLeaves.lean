import ShaderLink.Syntax.ImportTree

/-!
# The leaves of an import tree

`collectLeaves` walks a tree with a single path buffer that every path extends on the way in and
cuts back on the way out. The buffer always comes back as it went in, so each item of a list
sees the same buffer and no segment of one item's path leaks into the next. What the walk
appends is then what `leavesUnder` reads off the tree directly (`collectLeaves_eq`): a simple
item's path is the buffer and its name, a wildcard's is the buffer, a list gives the items of
its trees in order, and a path gives the items of its tail under the buffer and the path.

Reading a tree under a buffer only puts the buffer in front of every path of the tree's own
leaves (`leavesUnder_eq_map_under`). The main statement, `collectLeaves_prefixes`, gathers the
three facts: the walk appends exactly the leaves under the buffer and hands the buffer back,
those are the tree's leaves with the buffer in front, and so putting a path in front of a tree
puts it in front of every leaf.
-/

namespace ShaderLink

/-- The leaf with `q` in front of its path. -/
def ImportLeaf.under (q : List String) (l : ImportLeaf) : ImportLeaf :=
  { l with path := q ++ l.path }

@[simp] theorem ImportLeaf.under_under (p q : List String) (l : ImportLeaf) :
    (l.under q).under p = l.under (p ++ q) := by
  simp [ImportLeaf.under, List.append_assoc]

namespace ImportTree

mutual

/-- The walk appends the leaves under its buffer and returns the buffer unchanged. -/
theorem collectLeaves_eq : ∀ (t : ImportTree) (lead : List String) (acc : List ImportLeaf),
    collectLeaves t lead acc = (lead, acc ++ leavesUnder lead t)
  | .simple .., lead, acc => by simp [collectLeaves, leavesUnder]
  | .wildcard _, lead, acc => by simp [collectLeaves, leavesUnder]
  | .list trees, lead, acc => by rw [collectLeaves, leavesUnder, collectList_eq]
  | .path more tail, lead, acc => by
    -- the tail comes back with the extended buffer, which the cut restores
    rw [collectLeaves, collectLeaves_eq tail, leavesUnder]
    simp

theorem collectList_eq : ∀ (ts : List ImportTree) (lead : List String) (acc : List ImportLeaf),
    collectList ts lead acc = (lead, acc ++ leavesOfList lead ts)
  | [], lead, acc => by simp [collectList, leavesOfList]
  | t :: ts, lead, acc => by
    rw [collectList, collectLeaves_eq t, collectList_eq ts, leavesOfList, List.append_assoc]

end

theorem leaves_eq_leavesUnder (t : ImportTree) : t.leaves = leavesUnder [] t := by
  simp [leaves, collectLeaves_eq]

mutual

/-- The leaves under a buffer are the leaves under none, with the buffer in front. -/
theorem leavesUnder_eq_map_under : ∀ (t : ImportTree) (lead : List String),
    leavesUnder lead t = (leavesUnder [] t).map (ImportLeaf.under lead)
  | .simple .., lead => by simp [leavesUnder, ImportLeaf.under]
  | .wildcard _, lead => by simp [leavesUnder, ImportLeaf.under]
  | .list trees, lead => by rw [leavesUnder, leavesUnder, leavesOfList_eq_map_under]
  | .path more tail, lead => by
    rw [leavesUnder, leavesUnder, List.nil_append, leavesUnder_eq_map_under tail (lead ++ more),
      leavesUnder_eq_map_under tail more, List.map_map]
    simp [Function.comp_def]

theorem leavesOfList_eq_map_under : ∀ (ts : List ImportTree) (lead : List String),
    leavesOfList lead ts = (leavesOfList [] ts).map (ImportLeaf.under lead)
  | [], lead => rfl
  | t :: ts, lead => by
    rw [leavesOfList, leavesOfList, leavesUnder_eq_map_under t lead,
      leavesOfList_eq_map_under ts lead, List.map_append]

end

/-- A path in front of a tree puts itself in front of every leaf. -/
theorem leavesUnder_withLead (m l : List String) (t : ImportTree) :
    leavesUnder m (t.withLead l) = leavesUnder (m ++ l) t := by
  unfold withLead
  split
  · next h => simp [List.isEmpty_iff.1 h]
  · simp [leavesUnder]

/-- For every tree, buffer and list of leaves found so far, the walk appends exactly the leaves
under the buffer and hands the buffer back; those leaves are the tree's own with the buffer in
front; so a path put in front of a tree is put in front of every leaf. -/
theorem collectLeaves_prefixes (t : ImportTree) :
    (∀ lead acc, collectLeaves t lead acc = (lead, acc ++ leavesUnder lead t)) ∧
    (∀ lead, leavesUnder lead t = t.leaves.map (ImportLeaf.under lead)) ∧
    (∀ q, (t.withLead q).leaves = t.leaves.map (ImportLeaf.under q)) := by
  refine ⟨collectLeaves_eq t, fun lead => ?_, fun q => ?_⟩
  · rw [leaves_eq_leavesUnder, ← leavesUnder_eq_map_under]
  · rw [leaves_eq_leavesUnder, leaves_eq_leavesUnder, leavesUnder_withLead, List.nil_append,
      ← leavesUnder_eq_map_under]

/-- A list inside a path: the second item's path holds the path's segment but not the first
item's. -/
example :
    (ImportTree.path ["a"] (.list [.path ["b"] (.simple "c" none none), .wildcard none])).leaves =
      [⟨["a", "b", "c"], none, none, false⟩, ⟨["a"], none, none, true⟩] := by
  decide

end ImportTree

end ShaderLink
