/-!
# JSON values
-/

namespace Relabel

/-- A JSON value. A number is kept as it is written; members are kept in order. -/
inductive Json where
  | null
  | bool (value : Bool)
  | number (text : String)
  | string (value : String)
  | array (items : List Json)
  | object (members : List (String × Json))
deriving Inhabited, Repr

namespace Json

def string? : Json → Option String
  | .string value => some value
  | _ => none

def bool? : Json → Option Bool
  | .bool value => some value
  | _ => none

def stringList? : Json → Option (List String)
  | .array items => items.mapM string?
  | _ => none

/-- A value that may be absent, written as null. -/
def optional? {α : Type} (decode : Json → Option α) : Json → Option (Option α)
  | .null => some none
  | j => (decode j).map some

def ofOption {α : Type} (encode : α → Json) : Option α → Json
  | none => .null
  | some a => encode a

def ofStrings (texts : List String) : Json :=
  .array (texts.map .string)

/-- The fields of a record, in the order of their names, each absent if it is not given. A record is
written as an object, in which other keys are ignored, or as an array of its first fields. -/
def fields? (names : List String) : Json → Option (List (Option Json))
  | .object members => some (names.map fun name => members.lookup name)
  | .array items =>
    if items.length ≤ names.length then
      some (items.map some ++ List.replicate (names.length - items.length) none)
    else none
  | _ => none

def field? {α : Type} (decode : Json → Option α) (default : α) : Option Json → Option α
  | none => some default
  | some j => decode j

/-- A case of an enumeration without data: its name, or an object with that name as only key and
null as its value. -/
def unit? {α : Type} (ofName? : String → Option α) : Json → Option α
  | .string name => ofName? name
  | .object [(name, .null)] => ofName? name
  | _ => none

end Json

end Relabel
