import Relabel.Config.Plugins
import Relabel.Embed.Locator
import Relabel.Language.Css
import Relabel.Language.Html
import Relabel.Language.Js

/-!
# Language plugins

A plugin says which languages it handles, which code is embedded in a document, and which expressions
implement an intent for each language. A plugin is either one language family or a bundle of plugins.
-/

namespace Relabel

/-- Where the expressions of a language family come from. -/
inductive Grammar where
  | css
  | html
  | js
  | none
deriving DecidableEq, Repr

namespace Grammar

/-- The name of a grammar in configurations. -/
def name : Grammar → String
  | .css => "css"
  | .html => "html"
  | .js => "js"
  | .none => "none"

def ofName? (name : String) : Option Grammar :=
  [css, html, js, none].find? fun grammar => grammar.name == name

/-- The expressions that implement an intent. -/
def expressions (grammar : Grammar) (options : Options) : Except Error (List Expression) :=
  match grammar with
  | .css => Css.expressions options
  | .html => Html.expressions options
  | .js => Js.expressions options
  | .none => .ok []

end Grammar

/-- One language family: its tags, where embedded code is looked for, and its grammar. -/
structure Family where
  languages : List String
  locators : List Locator
  grammar : Grammar
deriving DecidableEq, Repr

/-- What builds the expressions of a language family. -/
abbrev Factory := Family → Options → Except Error (List Expression)

inductive Plugin where
  | family (f : Family)
  | bundle (children : List Plugin)

/-- Expressions by language tag, each tag once. -/
abbrev ExpressionSet := List (String × List Expression)

namespace ExpressionSet

/-- Adds expressions behind those that a tag has already. -/
def add (set : ExpressionSet) (language : String) (expressions : List Expression) :
    ExpressionSet :=
  match set with
  | [] => [(language, expressions)]
  | (tag, found) :: rest =>
    if tag = language then (tag, found ++ expressions) :: rest
    else (tag, found) :: add rest language expressions

/-- Adds the expressions of another set, tag by tag. -/
def merge (set other : ExpressionSet) : ExpressionSet :=
  other.foldl (fun set entry => add set entry.1 entry.2) set

end ExpressionSet

/-- The elements of a list without those that stand further in front already. -/
def dedup (tags : List String) : List String :=
  tags.foldl (fun seen tag => if seen.contains tag then seen else seen ++ [tag]) []

namespace Family

def css (options : TagOptions) : Family :=
  ⟨options.languages.getD ["css"], [], .css⟩

def js (options : TagOptions) : Family :=
  ⟨options.languages.getD ["js", "cjs", "mjs"], [], .js⟩

def html (options : MarkupOptions) : Family :=
  ⟨options.languages.getD ["html", "htm"],
    (if options.cssEmbeds then [.styleTag, .styleAttribute] else []) ++
      (if options.jsEmbeds then [.scriptTag] else []),
    .html⟩

def embeds (f : Family) (document : Document) : Traced (List Embed) := do
  if f.languages.contains document.kind then
    let found ← f.locators.mapM fun locator => locator.locate document.content
    return found.flatten
  else return []

/-- The expressions that implement an intent, from the grammar of the family. -/
def build : Factory :=
  fun f options => f.grammar.expressions options

/-- The expressions that a factory builds for an intent, for every tag of the family. -/
def expressions (factory : Factory) (f : Family) (options : Options) : Traced ExpressionSet := do
  let expressions ← Traced.ofExcept (factory f options)
  Traced.emit (.expressionsResolved options.intent f.languages expressions.length)
  return (dedup f.languages).map fun language => (language, expressions)

end Family

namespace Plugin

mutual

/-- The language tags that a plugin handles. A bundle names each tag once. -/
def languages : Plugin → List String
  | .family f => f.languages
  | .bundle children => dedup (languagesOfAll children)

def languagesOfAll : List Plugin → List String
  | [] => []
  | p :: rest => languages p ++ languagesOfAll rest

end

mutual

def embeds (document : Document) : Plugin → Traced (List Embed)
  | .family f => f.embeds document
  | .bundle children => embedsOfAll document children

def embedsOfAll (document : Document) : List Plugin → Traced (List Embed)
  | [] => return []
  | p :: rest => do
    let found ← embeds document p
    let others ← embedsOfAll document rest
    return found ++ others

end

mutual

/-- The expressions that a factory builds for an intent, by language tag. -/
def expressionsFrom (factory : Factory) (options : Options) : Plugin → Traced ExpressionSet
  | .family f => f.expressions factory options
  | .bundle children => expressionsOfAll factory options [] children

/-- Adds the expressions of some plugins, one after another, to a set. -/
def expressionsOfAll (factory : Factory) (options : Options) (set : ExpressionSet) :
    List Plugin → Traced ExpressionSet
  | [] => return set
  | p :: rest => do
    let found ← expressionsFrom factory options p
    expressionsOfAll factory options (set.merge found) rest

end

/-- The expressions that implement an intent, by language tag. -/
def expressions (options : Options) (p : Plugin) : Traced ExpressionSet :=
  p.expressionsFrom Family.build options

/-- Style sheets, HTML documents and scripts with their usual options. -/
def builtin : Plugin :=
  .bundle [.family (.css .default), .family (.html .default), .family (.js .default)]

def push (p child : Plugin) : Plugin :=
  match p with
  | .family f => .family f
  | .bundle children => .bundle (children ++ [child])

/-- A description of a bundle by the tags it handles. -/
def describe (p : Plugin) : String :=
  "MultiLanguagePlugin \x7b languages: " ++ quotedList p.languages ++ " \x7d"

end Plugin

end Relabel
