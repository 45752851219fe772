import Relabel.Template
import Relabel.Traced

/-!
# Matchers

A matcher is a filled template bound to the group it reports. Several groups can stand for one: the
branches of the group `main` are `main` itself and `main_1`, `main_2` and so on, and the first of them
that took part in a match is the capture of the match.

A match is consumed only up to the start of its `ahead` group, if it has one that took part: the text
from there on was looked at and is scanned again.
-/

namespace Relabel

/-- Whether a group name is a branch of another: that name itself, or that name followed by an
underscore and decimal digits. -/
def isBranchOf (wanted name : List Char) : Bool :=
  name == wanted ||
    match wanted.isPrefixOf? name with
    | some ('_' :: digits) => !digits.isEmpty && digits.all Pattern.isAsciiDigit
    | _ => false

/-- The name of the group at which scanning resumes. -/
def aheadGroup : List Char :=
  ['a', 'h', 'e', 'a', 'd']

/-- A compiled template with the numbers of the groups that make up the capture and of those at which
scanning resumes, both in increasing order. -/
structure Matcher where
  program : Program
  capture : List Nat
  ahead : List Nat

/-- A match as seen by an expression. -/
structure Hit where
  /-- From the start of the match up to where scanning resumes, or to the end of the match. -/
  consumed : Span
  /-- The capture, absent when another alternative matched. -/
  capture : Option Span
deriving DecidableEq, Repr

namespace Matcher

/-- Binds a pattern to the group it reports. -/
def ofPattern (group : List Char) (p : Pattern) : Matcher :=
  let named := p.groups.filterMap fun (index, name) => name.map fun name => (index, name)
  let isCapture := fun (entry : Nat × List Char) => isBranchOf group entry.2
  let isAhead := fun (entry : Nat × List Char) =>
    !isBranchOf group entry.2 && isBranchOf aheadGroup entry.2
  ⟨.ofPattern p, (named.filter isCapture).map Prod.fst, (named.filter isAhead).map Prod.fst⟩

def compile (template : Template) (pattern : List Char) (group : String) (caseSensitive : Bool) :
    Traced Matcher := do
  let p ← Traced.ofExcept (template.pattern pattern caseSensitive)
  let matcher := ofPattern group.toList p
  if matcher.capture.isEmpty then
    Traced.emit (.groupAbsent group)
  return matcher

/-- What the first of some groups that took part in a match recorded. -/
def firstGroup? (indices : List Nat) (found : Match) : Option Span :=
  indices.findSome? found.group?

def capture? (matcher : Matcher) (found : Match) : Option Span :=
  firstGroup? matcher.capture found

/-- The text of a match that was looked at without being consumed. -/
def ahead? (matcher : Matcher) (found : Match) : Option Span :=
  firstGroup? matcher.ahead found

/-- Where scanning should resume after a match. -/
def target (matcher : Matcher) (found : Match) : Nat :=
  match matcher.ahead? found with
  | some ahead => ahead.start
  | none => found.span.stop

/-- Where scanning does resume after a match that was searched for from `c`: at the target, but always
behind the first character of the match. Behind the end of the text there is no position. -/
def resume (matcher : Matcher) (c : Cursor) (found : Match) : Nat × Option Cursor :=
  if found.span.start < matcher.target found then
    (matcher.target found, c.seek? (matcher.target found))
  else
    match c.seek? found.span.start with
    | some d =>
      match d.rest with
      | next :: rest => ((d.advance next rest).offset, some (d.advance next rest))
      | [] => (d.offset + 1, none)
    | none => (found.span.start + 1, none)

/-- The matches from a position on, at most as many as the fuel allows, each with the offset at which
scanning resumes after it. -/
def walkFrom (matcher : Matcher) : Nat → Cursor → List (Match × Nat)
  | 0, _ => []
  | fuel + 1, c =>
    match matcher.program.search c with
    | none => []
    | some found =>
      match matcher.resume c found with
      | (offset, some d) => (found, offset) :: walkFrom matcher fuel d
      | (offset, none) => [(found, offset)]

/-- The matches in a text, from left to right, each with the offset at which scanning resumes. A text
has at most one match more than it has characters. -/
def walk (matcher : Matcher) (text : List Char) : List (Match × Nat) :=
  matcher.walkFrom (text.length + 1) (.start text)

def hit (matcher : Matcher) (found : Match) (resumed : Nat) : Hit :=
  ⟨⟨found.span.start, min resumed found.span.stop⟩, matcher.capture? found⟩

def scan (matcher : Matcher) (text : List Char) : List Hit :=
  (matcher.walk text).map fun (found, resumed) => matcher.hit found resumed

def captured (matcher : Matcher) (text : List Char) : List (List Char) :=
  (matcher.scan text).filterMap fun hit => hit.capture.bind fun span => span.slice? text

end Matcher

end Relabel
