import SchemaCatalog.Diagnostics
import SchemaCatalog.Encoding.Basic

/-!
# SchemaCatalog.Encoding.Diagnostics

How notes stand in JSON, and how they are read back. A note without a node leaves that member out;
the collection is an object with the one member `items`.
-/

namespace SchemaCatalog

open Json (Reader)
open Json.Reader (RecordField)

namespace Diagnostic

def Code.encode (c : Code) : Json := .string c.name

def Code.reader : Reader Code := Reader.named (all.map fun c => (c.name, c))

def Severity.encode (s : Severity) : Json := .string s.name

def Severity.reader : Reader Severity := Reader.named (all.map fun s => (s.name, s))

def encode (d : Diagnostic) : Json :=
  .object <|
    [("namespace", .string d.space), ("code", d.code.encode), ("message", .string d.message)] ++
      match d.node with
      | some node => [("node", node.encode)]
      | none => []

/-- A note whose fields may still be missing. -/
structure Partial where
  space : Option String := none
  code : Option Code := none
  message : Option String := none
  node : Option (Option NodeId) := none

def fields : List (RecordField Partial) :=
  [.of "namespace" Reader.text (·.space) fun p v => { p with space := some v },
    .of "code" Code.reader (·.code) fun p v => { p with code := some v },
    .of "message" Reader.text (·.message) fun p v => { p with message := some v },
    .of "node" (Reader.optional NodeId.reader) (·.node) fun p v => { p with node := some v }]

def Partial.finish (p : Partial) : Option Diagnostic :=
  match p.space, p.code, p.message with
  | some space, some code, some message =>
    some { space, code, message, node := p.node.getD none }
  | _, _, _ => none

def reader : Reader Diagnostic := Reader.record fields {} Partial.finish

end Diagnostic

namespace Diagnostics

def encode (ds : Diagnostics) : Json :=
  .object [("items", .array (ds.items.map Diagnostic.encode))]

def fields : List (RecordField (Option (List Diagnostic))) :=
  [.of "items" (Reader.list Diagnostic.reader) id fun _ v => some v]

def reader : Reader Diagnostics := Reader.record fields none (·.map Diagnostics.mk)

end Diagnostics

end SchemaCatalog
