import Relabel.Config.Json
import Relabel.Intent

/-!
# Options

What a user can say about an intent, and how it is written as JSON.
-/

namespace Relabel

/-- Pattern fragments expected right before and right after an identifier. -/
structure Affixes where
  front : Option String
  back : Option String
deriving DecidableEq, Repr

/-- The attributes whose value is one identifier, and fragments around it. -/
structure SingleValueOptions where
  attributeNames : List String
  front : Option String
  back : Option String
deriving DecidableEq, Repr

/-- The attributes whose value is a list of identifiers. -/
structure MultiValueOptions where
  attributeNames : List String
deriving DecidableEq, Repr

inductive Options where
  | attributes
  | querySelectors (affixes : Affixes)
  | singleValueAttributes (options : SingleValueOptions)
  | multiValueAttributes (options : MultiValueOptions)
  | cssDeclarationProperties (affixes : Affixes)
  | cssDeclarationValues (affixes : Affixes)
deriving DecidableEq, Repr

namespace Affixes

def ofJson? (j : Json) : Option Affixes := do
  match ← Json.fields? ["prefix", "suffix"] j with
  | [front, back] =>
    let front ← Json.field? (Json.optional? Json.string?) none front
    let back ← Json.field? (Json.optional? Json.string?) none back
    return ⟨front, back⟩
  | _ => none

def toJson (a : Affixes) : Json :=
  .object [("prefix", Json.ofOption .string a.front), ("suffix", Json.ofOption .string a.back)]

end Affixes

namespace SingleValueOptions

def ofJson? (j : Json) : Option SingleValueOptions := do
  match ← Json.fields? ["attribute_names", "value_prefix", "value_suffix"] j with
  | [names, front, back] =>
    let names ← Json.field? Json.stringList? [] names
    let front ← Json.field? (Json.optional? Json.string?) none front
    let back ← Json.field? (Json.optional? Json.string?) none back
    return ⟨names, front, back⟩
  | _ => none

def toJson (o : SingleValueOptions) : Json :=
  .object [("attribute_names", Json.ofStrings o.attributeNames),
    ("value_prefix", Json.ofOption .string o.front),
    ("value_suffix", Json.ofOption .string o.back)]

end SingleValueOptions

namespace MultiValueOptions

def ofJson? (j : Json) : Option MultiValueOptions := do
  match ← Json.fields? ["attribute_names"] j with
  | [names] =>
    let names ← Json.field? Json.stringList? [] names
    return ⟨names⟩
  | _ => none

def toJson (o : MultiValueOptions) : Json :=
  .object [("attribute_names", Json.ofStrings o.attributeNames)]

end MultiValueOptions

namespace Options

def intent : Options → Intent
  | .attributes => .attributes
  | .querySelectors _ => .querySelectors
  | .singleValueAttributes _ => .singleValueAttributes
  | .multiValueAttributes _ => .multiValueAttributes
  | .cssDeclarationProperties _ => .cssDeclarationProperties
  | .cssDeclarationValues _ => .cssDeclarationValues

/-- Decodes the options of an intent. Only those of `attributes`, which are none, may be missing. -/
def ofIntent? (intent : Intent) (options : Option Json) : Option Options :=
  match intent, options with
  | .attributes, none => some .attributes
  | .attributes, some .null => some .attributes
  | .attributes, some _ => none
  | _, none => none
  | .querySelectors, some j => (Affixes.ofJson? j).map .querySelectors
  | .singleValueAttributes, some j => (SingleValueOptions.ofJson? j).map .singleValueAttributes
  | .multiValueAttributes, some j => (MultiValueOptions.ofJson? j).map .multiValueAttributes
  | .cssDeclarationProperties, some j => (Affixes.ofJson? j).map .cssDeclarationProperties
  | .cssDeclarationValues, some j => (Affixes.ofJson? j).map .cssDeclarationValues

/-- Decodes an intent with its options: an object with the keys `intent` and `options`, in which other
keys are ignored, or an array of the two. -/
def ofJson? : Json → Option Options
  | .object members =>
    match members.lookup "intent" with
    | some (.string name) =>
      (Intent.ofName? name).bind fun intent => ofIntent? intent (members.lookup "options")
    | _ => none
  | .array [.string name, options] =>
    (Intent.ofName? name).bind fun intent => ofIntent? intent (some options)
  | _ => none

/-- The options of an intent as JSON, every field written. -/
def body? : Options → Option Json
  | .attributes => none
  | .querySelectors a => some a.toJson
  | .singleValueAttributes o => some o.toJson
  | .multiValueAttributes o => some o.toJson
  | .cssDeclarationProperties a => some a.toJson
  | .cssDeclarationValues a => some a.toJson

def toJson (o : Options) : Json :=
  let tag := ("intent", Json.string o.intent.name)
  match o.body? with
  | none => .object [tag]
  | some body => .object [tag, ("options", body)]

end Options

end Relabel
