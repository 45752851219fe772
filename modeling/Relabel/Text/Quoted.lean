import Relabel.Unicode.Printable

/-!
# Quoted texts

A quoted text stands between double quotes. Quotes and backslashes in it are escaped, and so is every
character that cannot be shown on its own: a few controls by a letter, all others by their code point.
-/

namespace Relabel

def hexDigits (n : Nat) : List Char :=
  Nat.toDigits 16 n

/-- A character inside double quotes. -/
def quotedChar (c : Char) : List Char :=
  match c with
  | '\x22' => ['\\', '\x22']
  | '\\' => ['\\', '\\']
  | '\x00' => ['\\', '0']
  | '\t' => ['\\', 't']
  | '\n' => ['\\', 'n']
  | '\r' => ['\\', 'r']
  | c =>
    if Unicode.isPrintable c then [c]
    else ['\\', 'u', '\x7b'] ++ hexDigits c.toNat ++ ['\x7d']

def quoted (text : String) : String :=
  String.ofList (['\x22'] ++ text.toList.flatMap quotedChar ++ ['\x22'])

/-- A list of texts, quoted, separated by commas and enclosed in brackets. -/
def quotedList (texts : List String) : String :=
  "[" ++ ", ".intercalate (texts.map quoted) ++ "]"

end Relabel
