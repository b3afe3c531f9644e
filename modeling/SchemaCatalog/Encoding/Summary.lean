import SchemaCatalog.Encoding.Basic
import SchemaCatalog.Registry.Summary

/-!
# SchemaCatalog.Encoding.Summary

How external references and summaries stand in JSON, and how they are read back. A summary leaves
its empty lists out.
-/

namespace SchemaCatalog

open Json (Reader)
open Json.Reader (RecordField)

/-! ## External references -/

namespace ExternalReference

def encode (r : ExternalReference) : Json :=
  .object [("namespace", .string r.space), ("location", .string r.location)]

/-- An external reference whose fields may still be missing. -/
structure Partial where
  space : Option String := none
  location : Option String := none

def fields : List (RecordField Partial) :=
  [.of "namespace" Reader.text (·.space) fun p v => { p with space := some v },
    .of "location" Reader.text (·.location) fun p v => { p with location := some v }]

def Partial.finish (p : Partial) : Option ExternalReference :=
  match p.space, p.location with
  | some space, some location => some { space, location }
  | _, _ => none

def reader : Reader ExternalReference := Reader.record fields {} Partial.finish

end ExternalReference

/-! ## Summaries -/

namespace Summary

/-- A member that is left out if its list is empty. -/
def member {α : Type} (key : String) (encode : α → Json) (items : List α) : List (String × Json) :=
  if items.isEmpty then [] else [(key, .array (items.map encode))]

def encode (s : Summary) : Json :=
  .object <|
    ("targetNamespace", .string s.targetSpace) ::
      Bucket.all.flatMap (fun b => member b.name .string (s.names.get b)) ++
      member "externalReferences" ExternalReference.encode s.externalReferences

structure Partial where
  targetSpace : Option String := none
  names : PerBucket (Option (List String)) := .fill none
  externalReferences : Option (List ExternalReference) := none

def fields : List (RecordField Partial) :=
  .of "targetNamespace" Reader.text (·.targetSpace) (fun p v => { p with targetSpace := some v }) ::
    Bucket.all.map (fun b => .of b.name (Reader.list Reader.text) (·.names.get b) fun p v =>
      { p with names := p.names.set b (some v) }) ++
    [.of "externalReferences" (Reader.list ExternalReference.reader) (·.externalReferences)
      fun p v => { p with externalReferences := some v }]

def Partial.finish (p : Partial) : Option Summary :=
  p.targetSpace.map fun targetSpace =>
    { targetSpace
      names := .ofFn fun b => (p.names.get b).getD []
      externalReferences := p.externalReferences.getD [] }

def reader : Reader Summary := Reader.record fields {} Partial.finish

end Summary

end SchemaCatalog
