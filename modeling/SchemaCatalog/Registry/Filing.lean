import SchemaCatalog.Builtins
import SchemaCatalog.Registry.Basic

/-!
# SchemaCatalog.Registry.Filing

How the direct children of a document root come into a registry. Named declarations go into the
bucket of their kind, include and import directives become external references, and everything else
is passed over. Filing never looks below a child.
-/

namespace SchemaCatalog

/-- What became of a declaration that a registry was to file. -/
inductive Filing
  /-- Filed under a name; `replaced` is the node that stood there. -/
  | declared (bucket : Bucket) (name : String) (replaced : Option NodeId)
  /-- A directive, noted as an external reference. -/
  | reference (reference : ExternalReference)
  /-- A directive that names no location. -/
  | missingLocation
  /-- A name that the namespace knows anyway. -/
  | builtin
  /-- A declaration without a bucket or without a name. -/
  | ignored
  deriving DecidableEq, Repr

namespace Registry

/-- A declaration is built-in for a registry if it bears a built-in name of the registry's own
namespace. -/
def suppresses (r : Registry) (builtins : Builtins) (d : Declaration) : Bool :=
  match d.name with
  | some name => d.space == r.targetSpace && builtins.contains d.space name
  | none => false

/-- The reference that a directive asks for: its location, and as namespace the attribute
`namespace`, else `targetNamespace`, else the registry's own. -/
def directiveReference? (r : Registry) (d : Declaration) : Option ExternalReference :=
  (d.attr? "schemaLocation" <|> d.attr? "location").map fun location =>
    { space := (d.attr? "namespace" <|> d.attr? "targetNamespace").getD r.targetSpace, location }

/-- Files one declaration. -/
def fileDeclaration (r : Registry) (builtins : Builtins) (id : NodeId) (d : Declaration) :
    Registry × Filing :=
  if r.suppresses builtins d then (r, .builtin)
  else match d.kind with
    | .inclusion | .importation =>
      match r.directiveReference? d with
      | some reference => (r.addReference reference, .reference reference)
      | none => (r, .missingLocation)
    | kind =>
      match Bucket.ofKind? kind, d.name with
      | some b, some name => (r.insert b name id, .declared b name (r.lookup b name))
      | _, _ => (r, .ignored)

def file (r : Registry) (builtins : Builtins) (arena : Arena) (id : NodeId) :
    Except Error (Registry × Filing) :=
  match arena.get? id with
  | some d => .ok (r.fileDeclaration builtins id d)
  | none => .error (.unknownNode id)

/-- Files nodes one after the other. A node that does not exist ends the work; the registry then
holds what was filed before it. -/
def fileAll (builtins : Builtins) (arena : Arena) :
    Registry → List NodeId → Registry × Except Error (List (NodeId × Filing))
  | r, [] => (r, .ok [])
  | r, id :: rest =>
    match r.file builtins arena id with
    | .error e => (r, .error e)
    | .ok (r, filing) =>
      let (r, filings) := fileAll builtins arena r rest
      (r, filings.map ((id, filing) :: ·))

def fileChildren (r : Registry) (builtins : Builtins) (arena : Arena) (root : NodeId) :
    Registry × Except Error (List (NodeId × Filing)) :=
  match arena.get? root with
  | some d => fileAll builtins arena r d.children
  | none => (r, .error (.unknownNode root))

end Registry

end SchemaCatalog
