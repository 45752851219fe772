import Relabel.Text.Span

/-!
# Splicing edits into a text

An edit replaces a span by other text. Edits are applied in the order given, in one pass from left to
right: an edit is left out when its span is no slice of the text or begins before the end of the last
edit applied. Inserted text is never looked at again.
-/

namespace Relabel

structure Edit where
  span : Span
  text : List Char
deriving DecidableEq, Repr

/-- The result of splicing: how many edits were applied, and the text they leave. -/
structure Spliced where
  applied : Nat
  text : List Char
deriving DecidableEq, Repr

namespace Spliced

/-- The new text, unless no edit was applied. -/
def changed? (s : Spliced) : Option (List Char) :=
  if s.applied = 0 then none else some s.text

end Spliced

/-- Applies edits to the part of a text that begins at byte `base`. -/
def spliceFrom (base : Nat) (rest : List Char) : List Edit → Spliced
  | [] => ⟨0, rest⟩
  | edit :: edits =>
    match edit.span.cut? base rest with
    | some (front, _, back) =>
      let tail := spliceFrom edit.span.stop back edits
      ⟨tail.applied + 1, front ++ edit.text ++ tail.text⟩
    | none => spliceFrom base rest edits

def splice (text : List Char) (edits : List Edit) : Spliced :=
  spliceFrom 0 text edits

end Relabel
