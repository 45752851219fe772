import Relabel.Language.Fragments

/-!
# Identifiers in scripts

Identifiers are looked for where the interfaces for documents and styles take them: in string
arguments of attribute, class list and style calls, and in selectors inside string literals.
-/

namespace Relabel.Js

open Fragment

def quotedName (names : String) : String :=
  "(?:\"(?i:" ++ names ++ ")\"|'(?i:" ++ names ++ ")'|`(?i:" ++ names ++ ")`)"

/-- Attribute names in calls that read or change attributes, and in selectors. -/
def attributes : Except Error (List Expression) := do
  let call ← direct
    (jsSkipped ++ "|(?-i:(?:get|set|has|remove|toggle)Attribute(?:Node)?)\\s*\\(\\s*" ++
      quotedArgument "" "") false
  let selector ← nested jsStringLiterals attributeSelector false
  return [call, selector]

/-- Identifiers in selectors inside string literals. -/
def querySelectors (affixes : Affixes) : Except Error (List Expression) := do
  let front := Fragment.optional affixes.front
  let back := Fragment.optional affixes.back
  let identifier ← nested jsStringLiterals (selector front back) true
  return [identifier]

/-- Values that are one identifier in calls that set an attribute and, for the attribute `id`, in
calls that look an element up. -/
def singleValueAttributes (options : SingleValueOptions) : Except Error (List Expression) := do
  let some names := Fragment.names options.attributeNames | return []
  let value := quotedArgument (Fragment.optional options.front) (Fragment.optional options.back)
  let call ← direct
    (jsSkipped ++ "|setAttribute\\s*\\(\\s*" ++ quotedName names ++ "\\s*,\\s*" ++ value) true
  if hasName options.attributeNames "id" then
    let lookup ← direct (jsSkipped ++ "|getElementById\\s*\\(\\s*" ++ value) true
    return [call, lookup]
  else return [call]

/-- Identifiers in the value in calls that set an attribute and, for the attribute `class`, in class
lists and class names. -/
def multiValueAttributes (options : MultiValueOptions) : Except Error (List Expression) := do
  let some names := Fragment.names options.attributeNames | return []
  let call ← nested
    (jsSkipped ++ "|setAttribute\\s*\\(\\s*" ++ quotedName names ++ "\\s*,\\s*" ++ quotedRegion)
    token true
  if hasName options.attributeNames "class" then
    let list ← nested
      (jsSkipped ++ "|\\.classList\\s*\\.\\s*(?:add|remove|toggle|contains|replace)\\s*\\(" ++
        "(?P<main>[^)]*(?:%s)[^)]*)\\)") (quotedArgument "" "") true
    let assigned ← nested (jsSkipped ++ "|\\.className\\s*\\+?=\\s*" ++ quotedRegion) token true
    return [call, list, assigned]
  else return [call]

/-- Names of properties in calls that read or change styles. -/
def declarationProperties (affixes : Affixes) : Except Error (List Expression) := do
  let front := Fragment.optional affixes.front
  let back := Fragment.optional affixes.back
  let call ← direct
    (jsSkipped ++ "|\\.(?:setProperty|getPropertyValue|removeProperty|getPropertyPriority)" ++
      "\\s*\\(\\s*" ++ quotedArgument front back) true
  return [call]

/-- Identifiers in values in calls that change styles. -/
def declarationValues (affixes : Affixes) : Except Error (List Expression) := do
  let front := Fragment.optional affixes.front
  let back := Fragment.optional affixes.back
  let value ← nested
    (jsSkipped ++ "|\\.setProperty\\s*\\(\\s*(?:\"[^\"]*\"|'[^']*'|`[^`]*`)\\s*,\\s*" ++
      quotedRegion) (declarationValue front back) true
  return [value]

def expressions : Options → Except Error (List Expression)
  | .attributes => attributes
  | .querySelectors affixes => querySelectors affixes
  | .singleValueAttributes options => singleValueAttributes options
  | .multiValueAttributes options => multiValueAttributes options
  | .cssDeclarationProperties affixes => declarationProperties affixes
  | .cssDeclarationValues affixes => declarationValues affixes

end Relabel.Js
