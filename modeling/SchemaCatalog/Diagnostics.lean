import SchemaCatalog.Declaration.Basic
import SchemaCatalog.Registry.Bucket

/-!
# SchemaCatalog.Diagnostics

Notes on what was overwritten, dropped or left open while a session was built. None of them stops
the work.
-/

namespace SchemaCatalog

namespace Diagnostic

/-- What a note is about. -/
inductive Code
  /-- A later declaration replaced an earlier one of the same name. -/
  | redefinition
  /-- An include or import without a location. -/
  | missingLocation
  /-- A reference that a lenient resolver left open. -/
  | unresolvedReference
  /-- An external reference to a namespace that no loaded document provides. -/
  | unfetchedReference
  deriving DecidableEq, Repr, Inhabited

/-- How grave a note is, the gravest last. -/
inductive Severity
  | info
  | warning
  deriving DecidableEq, Repr, Inhabited

namespace Code

def all : List Code := [redefinition, missingLocation, unresolvedReference, unfetchedReference]

def number : Code → String
  | redefinition => "I001"
  | missingLocation => "W001"
  | unresolvedReference => "W002"
  | unfetchedReference => "I002"

def name : Code → String
  | redefinition => "Redefinition"
  | missingLocation => "MissingLocation"
  | unresolvedReference => "UnresolvedReference"
  | unfetchedReference => "UnfetchedReference"

def severity : Code → Severity
  | redefinition | unfetchedReference => .info
  | missingLocation | unresolvedReference => .warning

end Code

namespace Severity

/-- All severities, the gravest last. -/
def all : List Severity := [info, warning]

def name : Severity → String
  | info => "Info"
  | warning => "Warning"

def word : Severity → String
  | info => "info"
  | warning => "warning"

def max : Severity → Severity → Severity
  | info, s => s
  | warning, _ => warning

end Severity

end Diagnostic

structure Diagnostic where
  space : String
  code : Diagnostic.Code
  message : String
  node : Option NodeId := none
  deriving DecidableEq, Repr, Inhabited

namespace Diagnostic

def severity (d : Diagnostic) : Severity := d.code.severity

def line (d : Diagnostic) : String :=
  s!"[{d.code.number}] {d.severity.word}: {d.message} ({d.space})" ++
    match d.node with
    | some node => s!" at {node}"
    | none => ""

def redefinition (space : String) (bucket : Bucket) (name : String) (node : NodeId) : Diagnostic :=
  { space, code := .redefinition, node
    message := s!"{bucket} '{name}' redefined, later declaration wins" }

def missingLocation (space : String) (node : NodeId) : Diagnostic :=
  { space, code := .missingLocation, node
    message := "include/import without a location was dropped" }

def unresolvedReference (space : String) (node : NodeId) (attr name : String) : Diagnostic :=
  { space, code := .unresolvedReference, node
    message := s!"{attr}=\"{name}\" could not be resolved" }

def unfetchedReference (space target location : String) : Diagnostic :=
  { space, code := .unfetchedReference, message := s!"'{location}' ({target}) is not loaded" }

end Diagnostic

/-- The notes of a session, in the order in which they were made. -/
structure Diagnostics where
  items : List Diagnostic := []
  deriving DecidableEq, Repr, Inhabited

namespace Diagnostics

def push (ds : Diagnostics) (d : Diagnostic) : Diagnostics := ⟨ds.items ++ [d]⟩

def append (ds : Diagnostics) (more : List Diagnostic) : Diagnostics := ⟨ds.items ++ more⟩

def withCode (ds : Diagnostics) (code : Diagnostic.Code) : List Diagnostic :=
  ds.items.filter (·.code = code)

def warnings (ds : Diagnostics) : List Diagnostic := ds.items.filter (·.severity = .warning)

/-- The gravest severity among the notes. -/
def worst (ds : Diagnostics) : Option Diagnostic.Severity :=
  ds.items.foldl (fun w d => some ((w.getD d.severity).max d.severity)) none

/-- A line per note, and a last line with their number unless there are none. -/
def render (ds : Diagnostics) : String :=
  String.join (ds.items.map fun d => d.line ++ "\n") ++
    if ds.items.isEmpty then ""
    else s!"\n{ds.items.length} note(s), {ds.warnings.length} warning(s)\n"

end Diagnostics

end SchemaCatalog
