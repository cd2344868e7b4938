import Std.Data.TreeSet

/-!
# Fresh names

Output names must not collide. `fresh used base` picks the first of `base`, `base0`, `base1`,
… that is not yet in `used`, and records it there. Among the first `used.size + 1` candidates
one is always free, since the candidates are pairwise distinct; that count is the search's
bound.
-/

namespace ShaderLink

/-- A set of names, ordered so that its operations can be evaluated in proofs. -/
abbrev NameSet := Std.TreeSet String compare

/-- The `k`-th numbered variant of a name: `base` followed by the decimal digits of `k`. -/
def numbered (base : String) (k : Nat) : String := base ++ toString k

/-- The first of `numbered base k`, `numbered base (k+1)`, … outside `used`, trying at most
`budget` candidates. -/
def firstFreeNumbered (used : NameSet) (base : String) : Nat → Nat → String
  | 0, k => numbered base k
  | budget + 1, k =>
    if used.contains (numbered base k) then firstFreeNumbered used base budget (k + 1)
    else numbered base k

/-- The first of `base`, `base0`, `base1`, … that is not in `used`, together with `used`
extended by it. -/
def fresh (used : NameSet) (base : String) : String × NameSet :=
  let name :=
    if used.contains base then firstFreeNumbered used base (used.size + 1) 0 else base
  (name, used.insert name)

/-- Makes each name of a list fresh in turn, against one growing set. -/
def freshAll (used : NameSet) : List String → List String × NameSet
  | [] => ([], used)
  | n :: ns =>
    let (m, used) := fresh used n
    let (ms, used) := freshAll used ns
    (m :: ms, used)

end ShaderLink
