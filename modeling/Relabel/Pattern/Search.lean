import Relabel.Pattern.Program
import Relabel.Text.Span
import Std.Data.HashSet

/-!
# Searching

A program is run at a position by trying its choices in order of preference and going back to the
latest one when the rest fails. The positions that guards have marked are carried along, also when
the search goes back. A search tries the positions of the text from left to right; each try starts
without marks, so what is found at a position depends on the text and the position alone.
-/

namespace Relabel

/-- A position of a text: its offset, the character in front of it and the text that follows. -/
structure Cursor where
  offset : Nat
  before : Option Char
  rest : List Char
deriving DecidableEq, Repr

namespace Cursor

def start (text : List Char) : Cursor :=
  ⟨0, none, text⟩

def advance (c : Cursor) (next : Char) (rest : List Char) : Cursor :=
  ⟨c.offset + next.utf8Size, some next, rest⟩

/-- The position at byte `target` of what is left of a text. -/
def seekFrom? (target offset : Nat) (before : Option Char) : List Char → Option Cursor
  | [] => if offset = target then some ⟨offset, before, []⟩ else none
  | c :: rest =>
    if offset = target then some ⟨offset, before, c :: rest⟩
    else seekFrom? target (offset + c.utf8Size) (some c) rest

/-- The position at byte `target`, if that is a position at or behind this one. -/
def seek? (c : Cursor) (target : Nat) : Option Cursor :=
  seekFrom? target c.offset c.before c.rest

end Cursor

/-- What the groups have recorded, latest first. -/
abbrev Captures := List (Nat × Span)

/-- The positions at which guards have been marked. -/
abbrev Marks := Std.HashSet (Nat × Nat)

/-- The end of a run: where it stopped and what was captured, if it succeeded, and the marks left. -/
abbrev Outcome := Option (Cursor × Captures) × Marks

/-- What is left to be matched from a position on. -/
abbrev Rest := Cursor → Captures → Marks → Outcome

namespace Outcome

/-- The outcome, or that of another run if it is a failure. -/
def orElse (first : Outcome) (second : Marks → Outcome) : Outcome :=
  match first with
  | (some found, marks) => (some found, marks)
  | (none, marks) => second marks

end Outcome

namespace Guard

/-- Runs a choice point at an offset under its guard. -/
def visit (guard : Guard) (offset : Nat) (run : Marks → Outcome) (marks : Marks) : Outcome :=
  match guard with
  | .memo id =>
    if marks.contains (id, offset) then (none, marks)
    else
      match run marks with
      | (some found, marks) => (some found, marks)
      | (none, marks) => (none, marks.insert (id, offset))
  | .once id =>
    if marks.contains (id, offset) then (none, marks)
    else run (marks.insert (id, offset))

end Guard

namespace Program

/-- Turns of a loop, at most as many as the fuel allows, and then the rest. -/
def turns (body : Rest → Rest) (guard : Guard) (greedy : Bool) (rest : Rest) : Nat → Rest
  | 0, _, _, marks => (none, marks)
  | fuel + 1, c, captures, marks =>
    let again := fun marks => body (turns body guard greedy rest fuel) c captures marks
    let leave := fun marks => rest c captures marks
    guard.visit c.offset
      (fun marks =>
        if greedy then Outcome.orElse (again marks) leave else Outcome.orElse (leave marks) again)
      marks

/-- Runs a program and then the rest. No loop needs more turns than the fuel if that is greater than
the number of characters to come by two. -/
def run (fuel : Nat) : Program → Rest → Rest
  | .empty, rest, c, captures, marks => rest c captures marks
  | .set s, rest, c, captures, marks =>
    match c.rest with
    | next :: text =>
      if s.contains next then rest (c.advance next text) captures marks else (none, marks)
    | [] => (none, marks)
  | .look l, rest, c, captures, marks =>
    if l.holds c.before c.rest.head? then rest c captures marks else (none, marks)
  | .seq a b, rest, c, captures, marks => a.run fuel (b.run fuel rest) c captures marks
  | .alt guard a b, rest, c, captures, marks =>
    guard.visit c.offset
      (fun marks =>
        Outcome.orElse (a.run fuel rest c captures marks)
          fun marks => b.run fuel rest c captures marks)
      marks
  | .group index a, rest, c, captures, marks =>
    a.run fuel (fun d captures marks => rest d ((index, ⟨c.offset, d.offset⟩) :: captures) marks)
      c captures marks
  | .loop guard greedy a, rest, c, captures, marks =>
    turns (a.run fuel) guard greedy rest fuel c captures marks

end Program

/-- A match: where it lies and what its groups recorded, latest first. -/
structure Match where
  span : Span
  captures : Captures
deriving DecidableEq, Repr

namespace Match

/-- What a group of the match recorded last; group 0 is the whole match. -/
def group? (m : Match) (index : Nat) : Option Span :=
  if index = 0 then some m.span else m.captures.lookup index

end Match

namespace Program

/-- The match of a program that begins at a position. -/
def matchAt (program : Program) (c : Cursor) : Option Match :=
  let stop : Rest := fun d captures marks => (some (d, captures), marks)
  match (program.run (c.rest.length + 2) stop c [] ∅).1 with
  | some (d, captures) => some ⟨⟨c.offset, d.offset⟩, captures⟩
  | none => none

/-- The first match in what is left of a text. -/
def searchFrom (program : Program) (offset : Nat) (before : Option Char) :
    List Char → Option Match
  | [] => program.matchAt ⟨offset, before, []⟩
  | c :: rest =>
    match program.matchAt ⟨offset, before, c :: rest⟩ with
    | some found => some found
    | none => searchFrom program (offset + c.utf8Size) (some c) rest

def search (program : Program) (c : Cursor) : Option Match :=
  program.searchFrom c.offset c.before c.rest

/-- The matches of a program from a position on, at most as many as the fuel allows. Each search
starts where the match before ended; an empty match right there is passed over by going on one
character. -/
def matchesFrom (program : Program) : Nat → Cursor → Option Nat → List Match
  | 0, _, _ => []
  | fuel + 1, c, lastStop =>
    match program.search c with
    | none => []
    | some found =>
      if found.span.isEmpty && lastStop == some found.span.stop then
        match c.rest with
        | next :: rest => matchesFrom program fuel (c.advance next rest) lastStop
        | [] => []
      else
        match c.seek? found.span.stop with
        | some d => found :: matchesFrom program fuel d (some found.span.stop)
        | none => [found]

def allMatches (program : Program) (text : List Char) : List Match :=
  program.matchesFrom (2 * text.length + 2) (.start text) none

end Program

end Relabel
