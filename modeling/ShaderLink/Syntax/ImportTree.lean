/-!
# Import trees

An import names one or more items with their paths, in one of two spellings that share one
shape: `import a/b/{c, d as e, f/*};` is a path `a/b` leading to a list of a simple item `c`,
a simple item `d` renamed `e`, and a path `f` leading to a wildcard. A simple item may carry
arguments for a generic export or a generator, `foo(MyStruct, 4)`. Relative imports start
with `.` and `..` segments.

`leaves` expands a tree into its items, each with the whole path leading to it, in source
order. It walks the tree with one path buffer (`collectLeaves`): a path extends the buffer
for its tail and cuts it back to its old length afterwards, and the items of a list are
collected one after another with the buffer each hands on. `leavesUnder lead t` reads the
same items off the tree directly, every path starting with `lead`.
-/

namespace ShaderLink

/-- The shape of an import. -/
inductive ImportTree where
  | simple (name : String) (asName : Option String) (args : Option (List String))
  | wildcard (asName : Option String)
  | list (trees : List ImportTree)
  | path (lead : List String) (tail : ImportTree)
deriving Repr, Inhabited

/-- One imported item, with the full path leading to it. For a wildcard the path is the
module's. -/
structure ImportLeaf where
  path : List String
  asName : Option String
  args : Option (List String)
  wildcard : Bool
deriving DecidableEq, Repr, Inhabited

namespace ImportTree

/-- Puts a path in front of a tree, unless the path is empty. -/
def withLead (t : ImportTree) (lead : List String) : ImportTree :=
  if lead.isEmpty then t else .path lead t

mutual

/-- The leaves of a tree, each path starting with `lead`. -/
def leavesUnder (lead : List String) : ImportTree → List ImportLeaf
  | .simple name asName args => [⟨lead ++ [name], asName, args, false⟩]
  | .wildcard asName => [⟨lead, asName, none, true⟩]
  | .list trees => leavesOfList lead trees
  | .path more tail => leavesUnder (lead ++ more) tail

/-- The leaves of a list of trees, in order. -/
def leavesOfList (lead : List String) : List ImportTree → List ImportLeaf
  | [] => []
  | t :: ts => leavesUnder lead t ++ leavesOfList lead ts

end

mutual

/-- Appends the leaves of a tree to `acc`, each path starting with the buffer `lead`, and
returns the buffer with them. -/
def collectLeaves : ImportTree → List String → List ImportLeaf → List String × List ImportLeaf
  | .simple name asName args, lead, acc => (lead, acc ++ [⟨lead ++ [name], asName, args, false⟩])
  | .wildcard asName, lead, acc => (lead, acc ++ [⟨lead, asName, none, true⟩])
  | .list trees, lead, acc => collectList trees lead acc
  | .path more tail, lead, acc =>
    let r := collectLeaves tail (lead ++ more) acc
    (r.1.take lead.length, r.2)

/-- Appends the leaves of a list of trees in order, each tree taking the buffer the one
before it returned. -/
def collectList : List ImportTree → List String → List ImportLeaf → List String × List ImportLeaf
  | [], lead, acc => (lead, acc)
  | t :: ts, lead, acc =>
    let r := collectLeaves t lead acc
    collectList ts r.1 r.2

end

/-- The leaves of a tree, in source order. -/
def leaves (t : ImportTree) : List ImportLeaf := (collectLeaves t [] []).2

end ImportTree

end ShaderLink
