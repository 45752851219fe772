import Relabel.Config.Json

/-!
# Options of the language plugins
-/

namespace Relabel

/-- Options of the plugins for style sheets and for scripts: the language tags, if not the usual
ones. -/
structure TagOptions where
  languages : Option (List String)
deriving DecidableEq, Repr

/-- Options of the plugin for HTML: the language tags, if not the usual ones, and whether embedded
style sheets and embedded scripts are looked for. -/
structure MarkupOptions where
  languages : Option (List String)
  cssEmbeds : Bool
  jsEmbeds : Bool
deriving DecidableEq, Repr

namespace TagOptions

def default : TagOptions :=
  ⟨none⟩

def ofJson? (j : Json) : Option TagOptions := do
  match ← Json.fields? ["languages"] j with
  | [languages] =>
    let languages ← Json.field? (Json.optional? Json.stringList?) none languages
    return ⟨languages⟩
  | _ => none

def toJson (o : TagOptions) : Json :=
  .object [("languages", Json.ofOption Json.ofStrings o.languages)]

end TagOptions

namespace MarkupOptions

def default : MarkupOptions :=
  ⟨none, true, true⟩

def ofJson? (j : Json) : Option MarkupOptions := do
  match ← Json.fields? ["languages", "css_embeds", "js_embeds"] j with
  | [languages, css, js] =>
    let languages ← Json.field? (Json.optional? Json.stringList?) none languages
    let css ← Json.field? Json.bool? true css
    let js ← Json.field? Json.bool? true js
    return ⟨languages, css, js⟩
  | _ => none

def toJson (o : MarkupOptions) : Json :=
  .object [("languages", Json.ofOption Json.ofStrings o.languages),
    ("css_embeds", .bool o.cssEmbeds), ("js_embeds", .bool o.jsEmbeds)]

end MarkupOptions

end Relabel
