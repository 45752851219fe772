import Relabel.Pattern.Basic

/-!
# Programs

A program is a pattern made ready for searching. Counted repetitions are written out, so that a single
kind of loop is left, and each choice point bears a guard that says what happens when the search is
brought to it a second time at the same position.

* A `memo` guard remembers the positions from which the choice failed. It changes no answer; it keeps
  the search from failing there again, so that a try costs time in proportion to the text.
* A `once` guard lets the search pass a position a single time. It stands on the choice points inside
  a loop whose body can match the empty text, where a second visit would be a turn of the loop that
  consumed nothing.
-/

namespace Relabel

/-- What a choice point does at a position it has been brought to before. -/
inductive Guard where
  | memo (id : Nat)
  | once (id : Nat)
deriving DecidableEq, Repr

/-- A pattern with its repetitions written out and its choice points guarded. -/
inductive Program where
  | empty
  | set (s : CharSet)
  | look (l : Look)
  | seq (first second : Program)
  | alt (guard : Guard) (first second : Program)
  | group (index : Nat) (body : Program)
  /-- Any number of turns of `body`; a turn is preferred to leaving if the loop is greedy. -/
  | loop (guard : Guard) (greedy : Bool) (body : Program)
deriving DecidableEq, Repr

namespace Program

def freshGuard (looping : Bool) : StateM Nat Guard :=
  modifyGet fun id => (if looping then .once id else .memo id, id + 1)

/-- Chooses between a program and the empty text. -/
def optional (guard : Guard) (greedy : Bool) (body : Program) : Program :=
  if greedy then .alt guard body .empty else .alt guard .empty body

/-- So many copies of what an action builds, and then `tail`. -/
def copies (build : StateM Nat Program) (tail : Program) : Nat → StateM Nat Program
  | 0 => return tail
  | n + 1 => do
    let first ← build
    let rest ← copies build tail n
    return .seq first rest

/-- Up to so many copies of what an action builds. -/
def optionalCopies (build : StateM Nat Program) (looping greedy : Bool) :
    Nat → StateM Nat Program
  | 0 => return .empty
  | n + 1 => do
    let guard ← freshGuard looping
    let first ← build
    let rest ← optionalCopies build looping greedy n
    return optional guard greedy (.seq first rest)

/-- The program of a pattern. Choice points take numbers from a counter; `looping` tells whether the
pattern stands in a loop whose body can match the empty text. -/
def build (looping : Bool) : Pattern → StateM Nat Program
  | .empty => return .empty
  | .set s => return .set s
  | .look l => return .look l
  | .seq a b => do
    let first ← build looping a
    let second ← build looping b
    return .seq first second
  | .alt a b => do
    let guard ← freshGuard looping
    let first ← build looping a
    let second ← build looping b
    return .alt guard first second
  | .group index _ a => do
    let body ← build looping a
    return .group index body
  | .repeated min (some max) greedy a => do
    let tail ← optionalCopies (build looping a) looping greedy (max - min)
    copies (build looping a) tail min
  | .repeated 0 none greedy a => do
    if a.nullable then
      let choice ← freshGuard looping
      let guard ← freshGuard true
      let body ← build true a
      return optional choice greedy (.seq body (.loop guard greedy body))
    else
      let guard ← freshGuard looping
      let body ← build looping a
      return .loop guard greedy body
  | .repeated (n + 1) none greedy a => do
    let inner := looping || a.nullable
    let guard ← freshGuard inner
    let body ← build inner a
    copies (build looping a) (.seq body (.loop guard greedy body)) n

def ofPattern (p : Pattern) : Program :=
  ((build false p).run 0).1

end Program

end Relabel
