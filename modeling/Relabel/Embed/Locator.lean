import Relabel.Embed.Basic
import Relabel.Pattern.Reader
import Relabel.Pattern.Search
import Relabel.Traced

/-!
# Locating embedded code

The places of an HTML document that hold code: the bodies of `style` and `script` elements, and quoted
`style` attributes. Comments are matched as a whole, so nothing inside them is found.
-/

namespace Relabel

/-- A place where a document holds code. -/
inductive Locator where
  | styleTag
  | styleAttribute
  | scriptTag
deriving DecidableEq, Repr

namespace Locator

/-- The name of a locator in configurations. -/
def name : Locator → String
  | .styleTag => "style-tag"
  | .styleAttribute => "style-attribute"
  | .scriptTag => "script-tag"

def ofName? (name : String) : Option Locator :=
  [styleTag, styleAttribute, scriptTag].find? fun locator => locator.name == name

/-- A comment, or an element with its body as group `content`. Quoted attribute values may hold the
character that ends a tag. -/
def elementPattern (tag : String) : String :=
  "(?is)<!--.*?-->|<" ++ tag ++ "(?:\\s(?:[^>\"']|\"[^\"]*\"|'[^']*')*)?>(?P<content>.*?)</" ++
    tag ++ "\\s*>"

/-- A comment, or a start tag up to the value of its `style` attribute, which is one of two groups
according to its quotes. -/
def styleAttributePattern : String :=
  "(?is)<!--.*?-->|<[a-z][^\\s/>]*" ++
    "(?:\\s+[^\\s\"'>/=]+(?:\\s*=\\s*(?:\"[^\"]*\"|'[^']*'|[^\\s\"'>]+))?)*?" ++
    "\\s+style\\s*=\\s*(?:\"(?P<content_1>[^\"]*)\"|'(?P<content_2>[^']*)')"

/-- Declarations become a style sheet as the body of one rule. -/
def styleAttributeWrapper : Wrapper :=
  ⟨":root\x7b", "\x7d"⟩

/-- The texts, not empty, that the first of some groups to take part in a match recorded, for every
match of a pattern, with the offsets at which they begin. -/
def contents (pattern : String) (groups : List Nat) (host : List Char) : List (String × Nat) :=
  match Pattern.parse? false pattern.toList with
  | none => []
  | some p =>
    ((Program.ofPattern p).allMatches host).filterMap fun found => do
      let span ← groups.findSome? found.group?
      if span.isEmpty then none
      else
        let text ← span.slice? host
        return (String.ofList text, span.start)

def elementBodies (tag : String) (kind : EmbedKind) (host : String) : List Embed :=
  (contents (elementPattern tag) [1] host.toList).map fun (raw, start) =>
    Embed.plain kind raw start

def styleAttributes (host : String) : List Embed :=
  (contents styleAttributePattern [1, 2] host.toList).map fun (raw, start) =>
    Embed.wrapped .css raw start styleAttributeWrapper

/-- The embedded code at the places a locator looks for, in document order. -/
def find (locator : Locator) (host : String) : List Embed :=
  match locator with
  | .styleTag => elementBodies "style" .css host
  | .styleAttribute => styleAttributes host
  | .scriptTag => elementBodies "script" .js host

def event (locator : Locator) (count : Nat) : Event :=
  match locator with
  | .styleTag => .elementsLocated EmbedKind.css.name count
  | .styleAttribute => .styleAttributesLocated count
  | .scriptTag => .elementsLocated EmbedKind.js.name count

/-- Finds embedded code and reports how much. -/
def locate (locator : Locator) (host : String) : Traced (List Embed) := do
  let embeds := locator.find host
  Traced.emit (locator.event embeds.length)
  return embeds

end Locator

end Relabel
