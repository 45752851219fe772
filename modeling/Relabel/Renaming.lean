import Relabel.Language.Plugin

/-!
# Renaming whole documents

A document is renamed from the inside out: first the code embedded in it, each piece as a document of
its own, then, with that written back, the document itself.
-/

namespace Relabel

structure Rename where
  options : Options
  mapping : Mapping

namespace Expression

/-- Replaces with several expressions one after another. -/
def replaceEach (expressions : List Expression) (text : String) (mapping : Mapping) :
    Traced String :=
  expressions.foldlM (fun text e => return (← e.replaceAll text mapping).getD text) text

end Expression

namespace Plugin

def applyRename (p : Plugin) (kind text : String) (rename : Rename) : Traced String := do
  let set ← p.expressions rename.options
  Expression.replaceEach ((set.lookup kind).getD []) text rename.mapping

/-- Applies renames to a document and the code embedded in it, up to a depth of embedding. -/
def renameTo (p : Plugin) (renames : List Rename) : Nat → Document → Traced String
  | 0, document => return document.content
  | depth + 1, document => do
    let embeds ← p.embeds document
    let renamed ← embeds.mapM fun e => return e.withContent (← renameTo p renames depth e.document)
    let text := spliceEmbeds document.content renamed
    renames.foldlM (fun text rename => p.applyRename document.kind text rename) text

/-- Applies renames to a document and the code embedded in it. Embedded code is shorter than its host,
so it cannot be embedded deeper than the host is long. -/
def rename (p : Plugin) (renames : List Rename) (document : Document) : Traced String :=
  p.renameTo renames (document.content.utf8ByteSize + 1) document

end Plugin

end Relabel
