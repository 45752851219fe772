import Relabel.Intent
import Relabel.Text.Quoted

/-!
# Events

What a run reports about itself. An event has a severity, a message and some further fields.
-/

namespace Relabel

inductive Severity where
  | trace
  | debug
deriving DecidableEq, Repr

inductive Event where
  /-- A compiled template has no group of the wanted name. -/
  | groupAbsent (group : String)
  | directReplaced (count : Nat)
  | parallelReplaced (count : Nat)
  | nestedReplaced (levels count : Nat)
  | elementsLocated (kind : String) (count : Nat)
  | styleAttributesLocated (count : Nat)
  | expressionsResolved (intent : Intent) (languages : List String) (count : Nat)
deriving DecidableEq, Repr

namespace Event

def severity : Event → Severity
  | .groupAbsent _ => .trace
  | .directReplaced _ => .trace
  | .parallelReplaced _ => .trace
  | .nestedReplaced _ _ => .trace
  | .elementsLocated _ _ => .debug
  | .styleAttributesLocated _ => .debug
  | .expressionsResolved _ _ _ => .debug

/-- The fields of an event by name, the message first. -/
def fields : Event → List (String × String)
  | .groupAbsent group => [("message", "capture group absent from pattern"), ("group", group)]
  | .directReplaced count =>
    [("message", "direct expression replace_all"), ("replaced", count.repr)]
  | .parallelReplaced count =>
    [("message", "parallel expression replace_all"), ("replaced", count.repr)]
  | .nestedReplaced levels count =>
    [("message", "nested expression replace_all"), ("levels", levels.repr),
      ("replaced", count.repr)]
  | .elementsLocated kind count =>
    [("message", "located element embeds"), ("kind", kind), ("count", count.repr)]
  | .styleAttributesLocated count =>
    [("message", "located style attribute embeds"), ("count", count.repr)]
  | .expressionsResolved intent languages count =>
    [("message", "resolved mangle expressions"), ("intent", intent.name),
      ("languages", quotedList languages), ("count", count.repr)]

end Event

end Relabel
