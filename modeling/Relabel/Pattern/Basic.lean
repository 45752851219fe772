import Relabel.Pattern.CharSet
import Relabel.Text.Span

/-!
# Patterns

A pattern describes stretches of text. Alternatives are ordered: the first one that lets the rest of
the pattern match is taken. A repetition prefers more copies if it is greedy and fewer if it is lazy.
-/

namespace Relabel

/-- A condition on a position of a text, which reads the characters around it and consumes none. -/
inductive Look where
  | textStart
  | textEnd
  | lineStart
  | lineEnd
  /-- The start of a line, where a carriage return may end a line as well. -/
  | anyLineStart
  /-- The end of a line, where a carriage return may end a line as well. -/
  | anyLineEnd
  | wordBoundary
  | notWordBoundary
  | wordStart
  | wordEnd
  | notAfterWord
  | notBeforeWord
deriving DecidableEq, Repr

namespace Look

def isWordChar : Option Char → Bool
  | some c => Unicode.isWord c
  | none => false

/-- Whether the condition holds between two characters, each absent at an end of the text. -/
def holds (look : Look) (before after : Option Char) : Bool :=
  match look with
  | .textStart => before.isNone
  | .textEnd => after.isNone
  | .lineStart => before.isNone || before == some '\n'
  | .lineEnd => after.isNone || after == some '\n'
  | .anyLineStart =>
    before.isNone || before == some '\n' || (before == some '\r' && after != some '\n')
  | .anyLineEnd =>
    after.isNone || after == some '\r' || (after == some '\n' && before != some '\r')
  | .wordBoundary => isWordChar before != isWordChar after
  | .notWordBoundary => isWordChar before == isWordChar after
  | .wordStart => !isWordChar before && isWordChar after
  | .wordEnd => isWordChar before && !isWordChar after
  | .notAfterWord => !isWordChar before
  | .notBeforeWord => !isWordChar after

end Look

inductive Pattern where
  /-- Matches the empty text. -/
  | empty
  /-- Matches one character of a set. -/
  | set (s : CharSet)
  /-- Matches the empty text where a condition holds. -/
  | look (l : Look)
  /-- Matches `first` and then `second`. -/
  | seq (first second : Pattern)
  /-- Matches one of two patterns, `first` by preference. -/
  | alt (first second : Pattern)
  /-- Matches `body` and records where it did under a number and perhaps a name. -/
  | group (index : Nat) (name : Option (List Char)) (body : Pattern)
  /-- Matches between `min` and `max` copies of `body` in a row. -/
  | repeated (min : Nat) (max : Option Nat) (greedy : Bool) (body : Pattern)
deriving DecidableEq, Repr

namespace Pattern

/-- The sequence of some items, given latest first. -/
def ofItems (items : List Pattern) : Pattern :=
  items.foldl (fun tail item => .seq item tail) .empty

/-- Repeats a pattern. No copies at all is the empty pattern, whatever would be repeated, and one
copy is the pattern itself. -/
def times (min : Nat) (max : Option Nat) (greedy : Bool) (body : Pattern) : Pattern :=
  if max = some 0 then .empty
  else if min = 1 ∧ max = some 1 then body
  else .repeated min max greedy body

/-- Whether a pattern can match without consuming a character. -/
def nullable : Pattern → Bool
  | .empty => true
  | .set _ => false
  | .look _ => true
  | .seq a b => a.nullable && b.nullable
  | .alt a b => a.nullable || b.nullable
  | .group _ _ a => a.nullable
  | .repeated min _ _ a => min == 0 || a.nullable

def groups : Pattern → List (Nat × Option (List Char))
  | .empty => []
  | .set _ => []
  | .look _ => []
  | .seq a b => a.groups ++ b.groups
  | .alt a b => a.groups ++ b.groups
  | .group index name a => (index, name) :: a.groups
  | .repeated _ _ _ a => a.groups

/-- The names of the groups by number. Group 0 is the whole match and has no name; a number that no
group of the pattern bears has none either. -/
def groupNames (p : Pattern) : List (Option (List Char)) :=
  let groups := p.groups
  let highest := groups.foldl (fun top group => max top group.1) 0
  (List.range (highest + 1)).map fun index => (groups.lookup index).join

end Pattern

end Relabel
