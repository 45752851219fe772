import Relabel.Language.Fragments

/-!
# Identifiers in style sheets
-/

namespace Relabel.Css

open Fragment

/-- Attribute names in attribute selectors and in `attr()`. -/
def attributes : Except Error (List Expression) := do
  let selector ← direct (cssSkipped ++ "|" ++ attributeSelector) false
  let call ← direct (cssSkipped ++ "|attr\\(\\s*(?P<main>%s)(?P<ahead>[\\s,)])") false
  return [selector, call]

/-- Identifiers in selectors. What follows the identifier must lead to the brace that opens a rule,
which keeps values out; comments and strings on the way are stepped over whole. -/
def querySelectors (affixes : Affixes) : Except Error (List Expression) := do
  let front := Fragment.optional affixes.front
  let back := Fragment.optional affixes.back
  let ahead :=
    "(?P<ahead>(?:(?:[\\s.#\\[\\]:,>+~()*|]|" ++ cssComment ++ ")(?:[^;\x7b\x7d\"'/]|" ++
      cssSkipped ++ "|/)*)?\\\x7b)"
  let selector ← direct
    (cssSkipped ++ "|" ++ boundary front ++ front ++ "(?P<main>%s)" ++ back ++ ahead) true
  return [selector]

/-- Values in attribute selectors that are one identifier. -/
def singleValueAttributes (options : SingleValueOptions) : Except Error (List Expression) := do
  let some names := Fragment.names options.attributeNames | return []
  let front := Fragment.optional options.front
  let back := Fragment.optional options.back
  let value ← direct
    (cssSkipped ++ "|\\[\\s*(?i:" ++ names ++ ")\\s*=\\s*(?:\"" ++ front ++ "(?P<main_1>%s)" ++
      back ++ "\"|'" ++ front ++ "(?P<main_2>%s)" ++ back ++ "'|" ++ front ++ "(?P<main_3>%s)" ++
      back ++ "(?P<ahead>[\\s\\]]))") true
  return [value]

/-- Identifiers in values of attribute selectors. -/
def multiValueAttributes (options : MultiValueOptions) : Except Error (List Expression) := do
  let some names := Fragment.names options.attributeNames | return []
  let values ← nested
    (cssSkipped ++ "|\\[\\s*(?i:" ++ names ++ ")\\s*~?=\\s*(?:\"(?P<main_1>[^\"]*(?:%s)[^\"]*)\"" ++
      "|'(?P<main_2>[^']*(?:%s)[^']*)'|(?P<main_3>%s)(?P<ahead>[\\s\\]]))") token true
  return [values]

def declarationProperties (affixes : Affixes) : Except Error (List Expression) := do
  let front := Fragment.optional affixes.front
  let back := Fragment.optional affixes.back
  let name ← direct
    (cssSkipped ++ "|(?:^|[\x7b;])\\s*" ++ front ++ "(?P<main>%s)" ++ back ++
      "(?P<ahead>\\s*:[^\x7b\x7d;]*(?:[;\x7d]|$))") true
  return [name]

def declarationValues (affixes : Affixes) : Except Error (List Expression) := do
  let front := Fragment.optional affixes.front
  let back := Fragment.optional affixes.back
  let value ← nested
    (cssSkipped ++ "|:(?P<main>[^;\x7b\x7d]*(?:%s)[^;\x7b\x7d]*)(?P<ahead>[;\x7d]|$)")
    (declarationValue front back) true
  return [value]

def expressions : Options → Except Error (List Expression)
  | .attributes => attributes
  | .querySelectors affixes => querySelectors affixes
  | .singleValueAttributes options => singleValueAttributes options
  | .multiValueAttributes options => multiValueAttributes options
  | .cssDeclarationProperties affixes => declarationProperties affixes
  | .cssDeclarationValues affixes => declarationValues affixes

end Relabel.Css
