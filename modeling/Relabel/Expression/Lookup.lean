import Relabel.Template
import Relabel.Unicode.Lowercase

/-!
# Looking identifiers up

A mapping says which identifier becomes which. A lookup is a mapping seen by an expression: it yields
the pattern that matches every key, and the value of the key a matched text stands for.
-/

namespace Relabel

/-- Identifiers and what they become. -/
abbrev Mapping := List (String × String)

/-- The order in which keys are tried: longer ones first, and those of one length by code points. -/
def keyLe (a b : String) : Bool :=
  b.utf8ByteSize < a.utf8ByteSize || (a.utf8ByteSize == b.utf8ByteSize && !(b < a))

/-- A mapping with its keys in the order in which they are tried. -/
structure Lookup where
  mapping : Mapping
  caseSensitive : Bool
  keys : List String

namespace Lookup

def ofMapping (mapping : Mapping) (caseSensitive : Bool) : Lookup :=
  ⟨mapping, caseSensitive, (mapping.map Prod.fst).mergeSort keyLe⟩

def pattern (lookup : Lookup) : List Char :=
  joinBars (lookup.keys.map fun key => escape key.toList)

/-- The value of the first key that satisfies a condition. -/
def first? (lookup : Lookup) (condition : List Char → Bool) : Option String :=
  match lookup.keys.find? fun key => condition key.toList with
  | some key => lookup.mapping.lookup key
  | none => none

/-- The value of the key a text stands for. If case matters this is the key equal to it. Otherwise it
is the first key with the same lowercase form or, failing that, the first key equal up to case
character by character. -/
def get? (lookup : Lookup) (identifier : List Char) : Option String :=
  if lookup.caseSensitive then lookup.mapping.lookup (String.ofList identifier)
  else
    let lowered := Unicode.lowercase identifier
    match lookup.first? fun key => Unicode.lowercase key == lowered with
    | some value => some value
    | none => lookup.first? fun key => Unicode.sameFoldText identifier key

end Lookup

end Relabel
