/-!
# Errors
-/

namespace Relabel

/-- What can go wrong when an expression is built or run. Text that does not match is no error. -/
inductive Error where
  /-- A template has no slot for the identifiers. -/
  | invalidTemplate (source : String)
  /-- A template filled with identifiers is no pattern. -/
  | invalidPattern
  /-- A name is not the name of an intent. -/
  | unknownIntent (name : String)
  /-- A name is not the name of a kind of embedded code. -/
  | unknownEmbedKind
deriving DecidableEq, Repr

namespace Error

def message : Error → String
  | .invalidTemplate source => "Invalid pattern template `" ++ source ++ "`: missing `%s` slot"
  | .invalidPattern => "Invalid regex pattern"
  | .unknownIntent name => "Unknown mangle intent `" ++ name ++ "`"
  | .unknownEmbedKind => "Matching variant not found"

end Error

end Relabel
