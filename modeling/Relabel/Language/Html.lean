import Relabel.Language.Fragments

/-!
# Identifiers in markup

Attribute names are compared without regard to case, attribute values with.
-/

namespace Relabel.Html

open Fragment

/-- A stretch of a start tag that holds no unfinished quotation. -/
def tagPart : String :=
  "(?:[^>\"']|\"[^\"]*\"|'[^']*')*"

/-- The name of an element at the start of a tag. -/
def tagStart : String :=
  "<[a-zA-Z][^\\s/>]*"

/-- A start tag that mentions an identifier among its attributes, which are captured. -/
def startTag : String :=
  tagStart ++ "(?P<main>\\s" ++ tagPart ++ "?(?:%s)" ++ tagPart ++ ")/?>"

/-- A start tag that mentions an identifier in an attribute value; the attributes are captured. -/
def valueTag : String :=
  tagStart ++ "(?P<main>\\s" ++ tagPart ++
    "?(?:\"[^\"]*(?:%s)[^\"]*\"|'[^']*(?:%s)[^']*'|=\\s*[^\\s\"'=<>`]*(?:%s))" ++ tagPart ++ ")/?>"

/-- An attribute value, quoted or not, which is matched whole so that nothing in it is taken for an
attribute. -/
def anyValue : String :=
  "\"[^\"]*\"|'[^']*'|=\\s*[^\\s\"'=<>`]+"

def attributeName : String :=
  anyValue ++ "|(?:^|\\s)(?P<main>%s)(?P<ahead>\\s*=|\\s|/|$)"

def attributes : Except Error (List Expression) := do
  let name ← nested (htmlComment ++ "|" ++ startTag) attributeName false
  return [name]

def singleValueAttributes (options : SingleValueOptions) : Except Error (List Expression) := do
  let some names := Fragment.names options.attributeNames | return []
  let front := Fragment.optional options.front
  let back := Fragment.optional options.back
  let value ← nested (htmlComment ++ "|" ++ valueTag)
    ("(?:^|\\s)(?i:" ++ names ++ ")\\s*=\\s*(?:\"" ++ front ++ "(?P<main_1>%s)" ++ back ++ "\"|'" ++
      front ++ "(?P<main_2>%s)" ++ back ++ "'|" ++ front ++ "(?P<main_3>%s)" ++ back ++
      "(?P<ahead>\\s|/|$))|" ++ anyValue) true
  return [value]

def multiValueAttributes (options : MultiValueOptions) : Except Error (List Expression) := do
  let some names := Fragment.names options.attributeNames | return []
  let values ← narrowed (htmlComment ++ "|" ++ valueTag)
    ("(?:^|\\s)(?i:" ++ names ++ ")\\s*=\\s*(?:\"(?P<main_1>[^\"]*(?:%s)[^\"]*)\"" ++
      "|'(?P<main_2>[^']*(?:%s)[^']*)'|(?P<main_3>%s)(?P<ahead>\\s|/|$))|" ++ anyValue)
    token true
  return [values]

/-- The expressions for an intent. Markup has no selectors and no declarations. -/
def expressions : Options → Except Error (List Expression)
  | .attributes => attributes
  | .singleValueAttributes options => singleValueAttributes options
  | .multiValueAttributes options => multiValueAttributes options
  | .querySelectors _ => .ok []
  | .cssDeclarationProperties _ => .ok []
  | .cssDeclarationValues _ => .ok []

end Relabel.Html
