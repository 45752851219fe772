import Relabel.Config.Options
import Relabel.Expression.Basic

/-!
# Pattern fragments

The pieces that the templates of the languages are made of. Comments and strings that hold no
identifier are matched whole and capture nothing, so scanning goes on behind them.
-/

namespace Relabel.Fragment

def cssComment : String :=
  "/\\*(?s:.*?)\\*/"

/-- A string literal in double or single quotes on one line. -/
def cssString : String :=
  "\"(?:[^\"\\\\\\n]|\\\\.)*\"|'(?:[^'\\\\\\n]|\\\\.)*'"

def htmlComment : String :=
  "<!--(?s:.*?)-->"

def jsComment : String :=
  "//[^\\n]*|/\\*(?s:.*?)\\*/"

/-- A string literal in any of the three quotes of JavaScript. -/
def jsString : String :=
  cssString ++ "|`(?:[^`\\\\]|\\\\(?s:.))*`"

/-- A string literal that holds an identifier, its content captured. -/
def jsStringContent : String :=
  "\"(?P<main_1>(?:[^\"\\\\\\n]|\\\\.)*?(?:%s)(?:[^\"\\\\\\n]|\\\\.)*)\"" ++
    "|'(?P<main_2>(?:[^'\\\\\\n]|\\\\.)*?(?:%s)(?:[^'\\\\\\n]|\\\\.)*)'" ++
    "|`(?P<main_3>(?:[^`\\\\]|\\\\(?s:.))*?(?:%s)(?:[^`\\\\]|\\\\(?s:.))*)`"

/-- What a script template steps over. -/
def jsSkipped : String :=
  jsComment ++ "|" ++ jsString

/-- What a style sheet template steps over. -/
def cssSkipped : String :=
  cssComment ++ "|" ++ cssString

/-- Any string literal, with the content of those that hold an identifier captured. -/
def jsStringLiterals : String :=
  jsComment ++ "|" ++ jsStringContent ++ "|" ++ jsString

/-- One of several identifiers separated by white space. -/
def token : String :=
  "(?:^|\\s)(?P<main>%s)(?P<ahead>\\s|$)"

/-- A quoted argument that is an identifier between two fragments. -/
def quotedArgument (front back : String) : String :=
  "(?:\"" ++ front ++ "(?P<main_1>%s)" ++ back ++ "\"|'" ++ front ++ "(?P<main_2>%s)" ++ back ++
    "'|`" ++ front ++ "(?P<main_3>%s)" ++ back ++ "`)"

/-- A quoted text that holds an identifier, its content captured. -/
def quotedRegion : String :=
  "(?:\"(?P<main_1>[^\"\\n]*(?:%s)[^\"\\n]*)\"" ++
    "|'(?P<main_2>[^'\\n]*(?:%s)[^'\\n]*)'" ++
    "|`(?P<main_3>[^`]*(?:%s)[^`]*)`)"

/-- An optional fragment as a group, empty if it is absent. -/
def optional : Option String → String
  | some value => if value = "" then "" else "(?:" ++ value ++ ")"
  | none => ""

/-- The choice between literal names, if there are any that are not empty. -/
def names (names : List String) : Option String :=
  let escaped := (names.filter fun name => name != "").map fun name => escape name.toList
  if escaped.isEmpty then none
  else some (String.ofList ("(?:".toList ++ joinBars escaped ++ [')']))

/-- A character of ASCII in lower case, any other character as it is. -/
def asciiLower (c : Char) : Char :=
  if 'A' ≤ c && c ≤ 'Z' then Char.ofNat (c.toNat + 32) else c

def hasName (names : List String) (name : String) : Bool :=
  names.any fun other => other.toList.map asciiLower == name.toList.map asciiLower

/-- What must stand in front of an identifier that has no fragment there. -/
def boundary (front : String) : String :=
  if front = "" then "(?:^|[^\\w-])" else ""

/-- A selector up to the character that ends it. -/
def selector (front back : String) : String :=
  boundary front ++ front ++ "(?P<main>%s)" ++ back ++ "(?P<ahead>[\\s.#\\[\\]:,>+~()*|]|$)"

/-- An identifier inside the value of a declaration. -/
def declarationValue (front back : String) : String :=
  cssSkipped ++ "|(?:^|[^\\w-])" ++ front ++ "(?P<main>%s)" ++ back ++ "(?P<ahead>[^\\w-]|$)"

def attributeSelector : String :=
  "\\[\\s*(?P<main>%s)\\s*(?P<ahead>[\\]=~|^$*])"

/-- The group that all these templates report. -/
def group : String :=
  "main"

/-- The expression that captures identifiers with one template. -/
def direct (source : String) (caseSensitive : Bool) : Except Error Expression := do
  let template ← Template.ofString source
  return ⟨.direct template, group, caseSensitive⟩

/-- The expression that captures identifiers inside the regions of an outer template. -/
def nested (outer inner : String) (caseSensitive : Bool) : Except Error Expression := do
  let outer ← Template.ofString outer
  let inner ← Template.ofString inner
  return ⟨.nested outer [] inner, group, caseSensitive⟩

/-- The expression that captures identifiers inside the regions of two templates. -/
def narrowed (outer region inner : String) (caseSensitive : Bool) : Except Error Expression := do
  let outer ← Template.ofString outer
  let inner ← Template.ofString inner
  let region ← Template.ofString region
  return ⟨.nested outer [region] inner, group, caseSensitive⟩

end Relabel.Fragment
