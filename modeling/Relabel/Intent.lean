/-!
# Intents

An intent names one place where identifiers occur, whatever the language.
-/

namespace Relabel

inductive Intent where
  | attributes
  | querySelectors
  | singleValueAttributes
  | multiValueAttributes
  | cssDeclarationProperties
  | cssDeclarationValues
deriving DecidableEq, Repr

namespace Intent

/-- Every intent, in the order in which they are listed to users. -/
def all : List Intent :=
  [.attributes, .querySelectors, .singleValueAttributes, .multiValueAttributes,
    .cssDeclarationProperties, .cssDeclarationValues]

/-- The name of an intent in configurations and messages. -/
def name : Intent → String
  | .attributes => "attributes"
  | .querySelectors => "query-selectors"
  | .singleValueAttributes => "single-value-attributes"
  | .multiValueAttributes => "multi-value-attributes"
  | .cssDeclarationProperties => "css-declaration-properties"
  | .cssDeclarationValues => "css-declaration-values"

def ofName? (name : String) : Option Intent :=
  all.find? fun intent => intent.name == name

@[simp] theorem ofName?_name (intent : Intent) : ofName? intent.name = some intent := by
  cases intent <;> decide

end Intent

end Relabel
