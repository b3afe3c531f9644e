/-!
# SchemaCatalog.Json.Fault

Why a text is not the JSON value that a reader wants.
-/

namespace SchemaCatalog.Json

/-- Why a text is not the JSON value that a reader wants. -/
inductive Fault
  /-- The text ends too early. -/
  | truncated
  /-- The text is not JSON. -/
  | malformed
  /-- The text is JSON so far, but not of the shape wanted. -/
  | mismatch
  deriving DecidableEq, Repr

def Fault.message : Fault → String
  | truncated => "the text ends too early"
  | malformed => "the text is not JSON"
  | mismatch => "the value is not of the shape wanted"

end SchemaCatalog.Json
