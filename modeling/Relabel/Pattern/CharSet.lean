import Relabel.Unicode.Decimal
import Relabel.Unicode.Fold
import Relabel.Unicode.Space
import Relabel.Unicode.Word

/-!
# Sets of characters

The sets a pattern can name, kept as they are written; membership is decided by evaluating them.
-/

namespace Relabel

inductive CharSet where
  | empty
  | range (first last : Char)
  | word
  | decimal
  | space
  | union (s t : CharSet)
  | inter (s t : CharSet)
  | diff (s t : CharSet)
  | symmDiff (s t : CharSet)
  | compl (s : CharSet)
  /-- The members of `s` and all characters equal to one of them up to case. -/
  | anyCase (s : CharSet)
deriving DecidableEq, Repr

namespace CharSet

def contains : CharSet → Char → Bool
  | .empty, _ => false
  | .range first last, c => first ≤ c && c ≤ last
  | .word, c => Unicode.isWord c
  | .decimal, c => Unicode.isDecimal c
  | .space, c => Unicode.isSpace c
  | .union s t, c => s.contains c || t.contains c
  | .inter s t, c => s.contains c && t.contains c
  | .diff s t, c => s.contains c && !t.contains c
  | .symmDiff s t, c => s.contains c != t.contains c
  | .compl s, c => !s.contains c
  | .anyCase s, c => s.contains c || (Unicode.caseVariants c).any fun d => s.contains d

def single (c : Char) : CharSet :=
  .range c c

def all : CharSet :=
  .compl .empty

/-- Adds the members of `t`, writing nothing for the empty set. -/
def add : CharSet → CharSet → CharSet
  | .empty, t => t
  | s, t => .union s t

/-- Closes a set under case variants if `ignoreCase` is on. -/
def folded (ignoreCase : Bool) (s : CharSet) : CharSet :=
  if ignoreCase then .anyCase s else s

/-- The complement of a set if `negated` is on. -/
def negatedIf (negated : Bool) (s : CharSet) : CharSet :=
  if negated then .compl s else s

/-- The set of all characters that one of the pairs of ends encloses. -/
def ofRanges (ranges : List (Char × Char)) : CharSet :=
  ranges.foldl (fun s ends => s.add (.range ends.1 ends.2)) .empty

/-- The ASCII classes that can be named inside a bracketed class. -/
def ascii? : List Char → Option CharSet
  | ['a', 'l', 'n', 'u', 'm'] => some (ofRanges [('0', '9'), ('A', 'Z'), ('a', 'z')])
  | ['a', 'l', 'p', 'h', 'a'] => some (ofRanges [('A', 'Z'), ('a', 'z')])
  | ['a', 's', 'c', 'i', 'i'] => some (ofRanges [('\x00', '\x7f')])
  | ['b', 'l', 'a', 'n', 'k'] => some (ofRanges [('\t', '\t'), (' ', ' ')])
  | ['c', 'n', 't', 'r', 'l'] => some (ofRanges [('\x00', '\x1f'), ('\x7f', '\x7f')])
  | ['d', 'i', 'g', 'i', 't'] => some (ofRanges [('0', '9')])
  | ['g', 'r', 'a', 'p', 'h'] => some (ofRanges [('!', '~')])
  | ['l', 'o', 'w', 'e', 'r'] => some (ofRanges [('a', 'z')])
  | ['p', 'r', 'i', 'n', 't'] => some (ofRanges [(' ', '~')])
  | ['p', 'u', 'n', 'c', 't'] =>
    some (ofRanges [('!', '/'), (':', '@'), ('[', '\x60'), ('\x7b', '~')])
  | ['s', 'p', 'a', 'c', 'e'] => some (ofRanges [('\t', '\r'), (' ', ' ')])
  | ['u', 'p', 'p', 'e', 'r'] => some (ofRanges [('A', 'Z')])
  | ['w', 'o', 'r', 'd'] => some (ofRanges [('0', '9'), ('A', 'Z'), ('_', '_'), ('a', 'z')])
  | ['x', 'd', 'i', 'g', 'i', 't'] => some (ofRanges [('0', '9'), ('A', 'F'), ('a', 'f')])
  | _ => none

end CharSet

end Relabel
