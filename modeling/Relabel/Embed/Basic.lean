import Relabel.Error
import Relabel.Text.Splice

/-!
# Embedded code

Code of one language inside a document of another. An embed remembers where its raw text stood, so
that it can be written back after it was worked on. Raw text that is no document by itself is handed
out inside a wrapper.
-/

namespace Relabel

inductive EmbedKind where
  | css
  | js
deriving DecidableEq, Repr

namespace EmbedKind

/-- The name of a kind, which is also the tag of its language. -/
def name : EmbedKind → String
  | .css => "css"
  | .js => "js"

def ofName (name : String) : Except Error EmbedKind :=
  match [EmbedKind.css, EmbedKind.js].find? fun kind => kind.name == name with
  | some kind => .ok kind
  | none => .error .unknownEmbedKind

@[simp] theorem ofName_name (kind : EmbedKind) : ofName kind.name = .ok kind := by
  cases kind <;> rfl

end EmbedKind

/-- Text put in front of raw text and behind it. -/
structure Wrapper where
  front : String
  back : String
deriving DecidableEq, Repr

/-- A document: the tag of its language and its text. -/
structure Document where
  kind : String
  content : String
deriving DecidableEq, Repr

/-- Embedded code: its kind, its text with the wrapper around it, where the raw text stands in the
host, and the wrapper. -/
structure Embed where
  kind : EmbedKind
  content : String
  span : Span
  wrapper : Option Wrapper
deriving DecidableEq, Repr

namespace Embed

/-- Embedded code that is a document by itself, found at an offset of the host. -/
def plain (kind : EmbedKind) (raw : String) (start : Nat) : Embed :=
  ⟨kind, raw, ⟨start, start + raw.utf8ByteSize⟩, none⟩

/-- Embedded code that needs a wrapper, found at an offset of the host. -/
def wrapped (kind : EmbedKind) (raw : String) (start : Nat) (wrapper : Wrapper) : Embed :=
  ⟨kind, wrapper.front ++ raw ++ wrapper.back, ⟨start, start + raw.utf8ByteSize⟩, some wrapper⟩

/-- The text inside the wrapper. If the wrapper is no longer there, the whole text. -/
def raw (e : Embed) : String :=
  match e.wrapper with
  | none => e.content
  | some wrapper =>
    match wrapper.front.toList.isPrefixOf? e.content.toList with
    | none => e.content
    | some inner =>
      match wrapper.back.toList.isSuffixOf? inner with
      | none => e.content
      | some raw => String.ofList raw

def withContent (e : Embed) (content : String) : Embed :=
  { e with content }

def document (e : Embed) : Document :=
  ⟨e.kind.name, e.content⟩

def describe (e : Embed) : String :=
  e.kind.name ++ " embed at " ++ e.span.start.repr ++ ".." ++ e.span.stop.repr

/-- The order in which embeds are written back: by start, then by end. -/
def le (a b : Embed) : Bool :=
  a.span.start < b.span.start || (a.span.start == b.span.start && a.span.stop ≤ b.span.stop)

end Embed

/-- Writes embeds back over the text they stood for. An embed that does not fit the host, or begins
before the end of the last one written, is left out. -/
def spliceEmbeds (host : String) (embeds : List Embed) : String :=
  let edits := (embeds.mergeSort Embed.le).map fun e => Edit.mk e.span e.raw.toList
  String.ofList (splice host.toList edits).text

end Relabel
