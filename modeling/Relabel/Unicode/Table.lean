/-!
# Tables of code points

A Unicode property is stored as a list of ranges in increasing order, both ends included. Looking a
code point up stops at the first range that begins beyond it, so ASCII is decided in a few steps.

Two versions of the standard are in use. What a pattern consults (word characters, decimal digits,
case folding) is fixed at Unicode 16.0. What is asked of plain text (letters and numbers in names,
lowercasing, printability) follows Unicode 17.0. The two disagree only on characters that are new in
17.0, which a pattern neither takes for word characters nor folds.
-/

namespace Relabel.Unicode

/-- Whether a code point lies in one of the ranges of an increasing table. -/
def inRanges (code : Nat) : List (Nat × Nat) → Bool
  | [] => false
  | (first, last) :: rest =>
    if code < first then false else code ≤ last || inRanges code rest

/-- A run of code points `first, first + step, …, last` that share one datum. -/
structure Run (α : Type) where
  first : Nat
  last : Nat
  step : Nat
  datum : α

/-- The datum of the run a code point belongs to, in a table ordered by `first`. -/
def Run.find? {α : Type} (code : Nat) : List (Run α) → Option α
  | [] => none
  | run :: rest =>
    if code < run.first then none
    else if code ≤ run.last ∧ (code - run.first) % run.step = 0 then some run.datum
    else find? code rest

/-- The character a given distance away in code point order. -/
def shift (c : Char) (distance : Int) : Char :=
  Char.ofNat (c.toNat + distance).toNat

end Relabel.Unicode
