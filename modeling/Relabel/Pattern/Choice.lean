import Relabel.Pattern.Basic
import Relabel.Pattern.Canonical

/-!
# Choices

The branches of a choice are tried in order. If all of them are sequences that begin alike, what they
share is matched once, in front of the choice: each way of matching it is then tried with every branch
before the next way is. This differs from the choice as written only if the shared part can match in
more than one way, so a choice between plain texts stays as it is.
-/

namespace Relabel.Pattern

def items : Pattern → List Pattern
  | .empty => []
  | .seq a b => a.items ++ b.items
  | p => [p]

def sequence : List Pattern → Pattern
  | [] => .empty
  | [p] => p
  | p :: rest => .seq p (sequence rest)

/-- A form of a pattern that does not depend on how its sets are written and its sequences grouped. -/
def normal : Pattern → Pattern
  | .empty => .empty
  | .set s => .set s.canonical
  | .look l => .look l
  | .seq a b => sequence (a.normal.items ++ b.normal.items)
  | .alt a b =>
    match a.normal, b.normal with
    | .set s, .set t => .set (CharSet.union s t).canonical
    | first, second => .alt first second
  | .group index name a => .group index name a.normal
  | .repeated min max greedy a => .repeated min max greedy a.normal

/-- Whether a pattern may match in more than one way at a position. -/
def branching : Pattern → Bool
  | .empty => false
  | .set _ => false
  | .look _ => false
  | .seq a b => a.branching || b.branching
  | .alt _ _ => true
  | .group _ _ a => a.branching
  | .repeated _ _ _ _ => true

/-- Whether two items are seen to differ without a look at their normal forms. -/
def tellApart : Pattern → Pattern → Bool
  | .set s, .set t => s.tellApart t
  | .look l, .look k => l != k
  | .group index _ _, .group index' _ _ => index != index'
  | .repeated min max greedy a, .repeated min' max' greedy' b =>
    min != min' || max != max' || greedy != greedy' || a.tellApart b
  | .set _, .look _ => true
  | .set _, .repeated _ _ _ _ => true
  | .look _, .set _ => true
  | .look _, .repeated _ _ _ _ => true
  | .repeated _ _ _ _, .set _ => true
  | .repeated _ _ _ _, .look _ => true
  | .group _ _ _, b => b.groups.isEmpty
  | a, .group _ _ _ => a.groups.isEmpty
  | _, _ => false

/-- Whether two items match alike, however they are written. -/
def alike (a b : Pattern) : Bool :=
  a = b || (!a.tellApart b && a.normal = b.normal)

/-- The number of items that two sequences have in common at their beginning. -/
def sharedLength : List Pattern → List Pattern → Nat
  | a :: as, b :: bs => if alike a b then sharedLength as bs + 1 else 0
  | _, _ => 0

/-- Whether a branch is a sequence that may share a branching item with another one. -/
def canShare (branch : List Pattern) : Bool :=
  2 ≤ branch.length && branch.any branching

/-- The choice between some branches as they are, given latest first. -/
def choice (last : Pattern) (earlier : List Pattern) : Pattern :=
  earlier.foldl (fun tail branch => .alt branch tail) last

/-- The number of items that some branches have in common at their beginning, or none if one of them
cannot share a branching item. -/
def sharedByAll (last : Pattern) (earlier : List Pattern) : Nat :=
  if canShare last.items && earlier.all fun branch => canShare branch.items then
    earlier.foldl (fun count branch => min count (sharedLength last.items branch.items))
      last.items.length
  else 0

/-- The choice between some branches, given latest first, with what they share in front of it. -/
def ofBranches (last : Pattern) : List Pattern → Pattern
  | [] => last
  | branch :: earlier =>
    let count := sharedByAll last (branch :: earlier)
    let shared := last.items.take count
    if shared.any branching then
      .seq (sequence shared)
        (choice (sequence (last.items.drop count))
          ((branch :: earlier).map fun branch => sequence (branch.items.drop count)))
    else choice last (branch :: earlier)

end Relabel.Pattern
