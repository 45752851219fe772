import Relabel.Unicode.Table

/-!
# White space
-/

namespace Relabel.Unicode

def spaceRanges : List (Nat × Nat) :=
  [(0x9, 0xD), (0x20, 0x20), (0x85, 0x85), (0xA0, 0xA0), (0x1680, 0x1680), (0x2000, 0x200A),
   (0x2028, 0x2029), (0x202F, 0x202F), (0x205F, 0x205F), (0x3000, 0x3000)]

/-- The White_Space property: blanks and line breaks of every script. -/
def isSpace (c : Char) : Bool :=
  inRanges c.toNat spaceRanges

end Relabel.Unicode
