import SchemaCatalog.Declaration.Basic
import SchemaCatalog.Files.Fault
import SchemaCatalog.Json.Fault

/-!
# SchemaCatalog.Error

The causes for which an operation gives up, and their wording.
-/

namespace SchemaCatalog

/-- What makes a well-formed fragment unusable. -/
inductive FragmentDefect
  | duplicateAnchor (anchor : String)
  | unknownAnchor (anchor : String)
  /-- A visitor turned the document down in its own words. -/
  | rejected (reason : String)
  deriving DecidableEq, Repr

/-- The causes for which an operation gives up. -/
inductive Error
  | unknownNode (id : NodeId)
  | unresolvedReference (node : NodeId) (attr name : String)
  | unknownPrefix (node : NodeId) (pfx : String)
  | invalidFragment (defect : FragmentDefect)
  | unreadable (fault : Files.Fault)
  | notJson (fault : Json.Fault)
  | badSettings
  deriving DecidableEq, Repr

def FragmentDefect.message : FragmentDefect → String
  | duplicateAnchor anchor => s!"duplicate anchor '{anchor}'"
  | unknownAnchor anchor => s!"link to unknown anchor '{anchor}'"
  | rejected reason => reason

def Error.message : Error → String
  | unknownNode id => s!"Unknown declaration node: {id}"
  | unresolvedReference node attr name => s!"Unresolved reference on {node}: {attr}=\"{name}\""
  | unknownPrefix node pfx => s!"Unknown namespace prefix '{pfx}' on {node}"
  | invalidFragment defect => s!"Invalid fragment: {defect.message}"
  | unreadable fault => s!"IO error: {fault.message}"
  | notJson fault => s!"JSON error: {fault.message}"
  | badSettings => "Configuration error: the settings cannot be read"

end SchemaCatalog
