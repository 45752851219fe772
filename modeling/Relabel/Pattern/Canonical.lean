import Relabel.Pattern.CharSet

/-!
# Canonical sets

One set of characters can be written in many ways. Its canonical form is read off the places at which
membership changes as one goes through all characters in order, so two sets with the same members
have the same canonical form. Most sets that differ do so at a character one of them is written with,
which is quicker to see.
-/

namespace Relabel.CharSet

/-- The place of a code point among the characters in order. Surrogates are no characters, so the
places close the gap they leave. -/
def place (code : Nat) : Nat :=
  if code < 0xD800 then code else code - 0x800

def charAt (p : Nat) : Char :=
  Char.ofNat (if p < 0xD800 then p else p + 0x800)

def placeCount : Nat :=
  0x10F800

/-- The places at which membership in a range of code points changes. -/
def changesOfRange (first last : Nat) : List Nat :=
  if last < first then []
  else if place last + 1 < placeCount then [place first, place last + 1]
  else [place first]

/-- The places at which membership in one of some ranges changes, for ranges in increasing order that
do not touch. -/
def changesOfRanges (ranges : List (Nat × Nat)) : List Nat :=
  ranges.flatMap fun range => changesOfRange range.1 range.2

/-- Goes through the changes of two sets side by side and keeps those at which `op` of the two
memberships changes. Each step uses up a change, so `fuel` is enough if it bounds their number. -/
def combineFrom (op : Bool → Bool → Bool) :
    Nat → Bool → Bool → List Nat → List Nat → List Nat
  | 0, _, _, _, _ => []
  | _ + 1, _, _, [], [] => []
  | fuel + 1, inLeft, inRight, left, right =>
    let next := min (left.headD placeCount) (right.headD placeCount)
    let moveLeft := left.head? == some next
    let moveRight := right.head? == some next
    let rest := combineFrom op fuel (inLeft != moveLeft) (inRight != moveRight)
      (if moveLeft then left.tail else left) (if moveRight then right.tail else right)
    if op (inLeft != moveLeft) (inRight != moveRight) == op inLeft inRight then rest
    else next :: rest

/-- The changes of the set of all characters for which `op` of two memberships holds. -/
def combine (op : Bool → Bool → Bool) (left right : List Nat) : List Nat :=
  combineFrom op (left.length + right.length) false false left right

/-- The characters that differ from a member of `s` only in case. -/
def caseVariantsOf (s : CharSet) : List Char :=
  let codes := Unicode.caseVariantRuns.flatMap fun run =>
    (List.range ((run.last - run.first) / run.step + 1)).map fun i => run.first + run.step * i
  (codes.map Char.ofNat).filter fun c => (Unicode.caseVariants c).any fun d => s.contains d

/-- The places at which membership in a set changes, in increasing order. -/
def changes : CharSet → List Nat
  | .empty => []
  | .range first last => changesOfRange first.toNat last.toNat
  | .word => changesOfRanges Unicode.wordRanges
  | .decimal => changesOfRanges Unicode.decimalRanges
  | .space => changesOfRanges Unicode.spaceRanges
  | .union s t => combine (fun x y => x || y) s.changes t.changes
  | .inter s t => combine (fun x y => x && y) s.changes t.changes
  | .diff s t => combine (fun x y => x && !y) s.changes t.changes
  | .symmDiff s t => combine (fun x y => x != y) s.changes t.changes
  | .compl s => combine (fun x y => x != y) s.changes [0]
  | .anyCase s =>
    (caseVariantsOf s).foldl (fun places c =>
      combine (fun x y => x || y) places (changesOfRange c.toNat c.toNat)) s.changes

/-- The set whose membership changes at some places. -/
def ofChanges : List Nat → CharSet
  | [] => .empty
  | [first] => .range (charAt first) (charAt (placeCount - 1))
  | first :: stop :: rest => .union (.range (charAt first) (charAt (stop - 1))) (ofChanges rest)

def canonical (s : CharSet) : CharSet :=
  ofChanges s.changes

/-- The characters a set is written with. -/
def written : CharSet → List Char
  | .empty => []
  | .range first last => [first, last]
  | .word => []
  | .decimal => []
  | .space => []
  | .union s t => s.written ++ t.written
  | .inter s t => s.written ++ t.written
  | .diff s t => s.written ++ t.written
  | .symmDiff s t => s.written ++ t.written
  | .compl s => s.written
  | .anyCase s => s.written

/-- Whether one of the characters that two sets are written with belongs to only one of them. -/
def tellApart (s t : CharSet) : Bool :=
  (s.written ++ t.written).any fun c => s.contains c != t.contains c

end Relabel.CharSet
