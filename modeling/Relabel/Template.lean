import Relabel.Error
import Relabel.Pattern.Reader
import Relabel.Pattern.Search

/-!
# Templates

A template is the text of a pattern with slots, written `%s`, for the identifiers looked for. Filling
a template puts a pattern of identifiers into every slot, as a group of its own.
-/

namespace Relabel

def hasSlot : List Char → Bool
  | '%' :: 's' :: _ => true
  | _ :: rest => hasSlot rest
  | [] => false

def fillSlots (filling : List Char) : List Char → List Char
  | '%' :: 's' :: rest => filling ++ fillSlots filling rest
  | c :: rest => c :: fillSlots filling rest
  | [] => []

/-- The text of a pattern with at least one slot. -/
structure Template where
  source : String
  slotted : hasSlot source.toList = true

namespace Template

def ofString (source : String) : Except Error Template :=
  if h : hasSlot source.toList = true then .ok ⟨source, h⟩ else .error (.invalidTemplate source)

/-- The text of the pattern that results when `pattern` is put into the slots. -/
def fill (t : Template) (pattern : List Char) : List Char :=
  fillSlots ("(?:".toList ++ pattern ++ [')']) t.source.toList

/-- The pattern that results when `pattern` is put into the slots. -/
def pattern (t : Template) (filling : List Char) (caseSensitive : Bool) : Except Error Pattern :=
  match Pattern.parse? (!caseSensitive) (t.fill filling) with
  | some p => .ok p
  | none => .error .invalidPattern

end Template

/-- Whether a character has a meaning of its own in a pattern. -/
def isSpecial (c : Char) : Bool :=
  ['\\', '.', '+', '*', '?', '(', ')', '|', '[', ']', '{', '}', '^', '$', '#', '&', '-',
    '~'].contains c

/-- The text of the pattern that matches a text literally. -/
def escape (text : List Char) : List Char :=
  text.flatMap fun c => if isSpecial c then ['\\', c] else [c]

/-- The texts with a bar between each two. -/
def joinBars (texts : List (List Char)) : List Char :=
  ['|'].intercalate texts

end Relabel
