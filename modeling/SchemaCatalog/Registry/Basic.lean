import SchemaCatalog.Declaration.Arena
import SchemaCatalog.Registry.Bucket

/-!
# SchemaCatalog.Registry.Basic

The declarations of one target namespace: which node stands under which name in which bucket, the
roots of the documents that they come from, the prefixes of the first document, and the external
references, that is, the include and import directives that still have to be fetched.
-/

namespace SchemaCatalog

structure ExternalReference where
  space : String
  location : String
  deriving DecidableEq, Repr, Inhabited

/-- The declarations of one target namespace. -/
structure Registry where
  targetSpace : String
  /-- The roots of the documents that contributed, the first one first. -/
  roots : List NodeId := []
  /-- The prefixes that the first document binds; the empty prefix is the default namespace. -/
  prefixes : Table String String := ∅
  declarations : PerBucket (Table String NodeId) := .fill ∅
  externalReferences : List ExternalReference := []
  deriving DecidableEq, Inhabited

namespace Registry

def new (targetSpace : String) : Registry := { targetSpace }

def boundPrefix? (key : String) : Option String :=
  if key = "xmlns" then some ""
  else if "xmlns:".toList.isPrefixOf key.toList then some (String.ofList (key.toList.drop 6))
  else none

/-- The prefixes that a document root binds. -/
def prefixesOf (root : Declaration) : Table String String :=
  .ofList (root.attributes.entries.filterMap fun (key, uri) =>
    (boundPrefix? key).map fun pfx => (pfx, uri))

/-- The target namespace of a document: the attribute of that name on its root, else the namespace
that the root was parsed with. -/
def targetSpaceOf (root : Declaration) : String := (root.attr? "targetNamespace").getD root.space

def ofRoot (id : NodeId) (root : Declaration) : Registry :=
  { targetSpace := targetSpaceOf root, roots := [id], prefixes := prefixesOf root }

/-- The registry of a document root, still without declarations. -/
def forDocument (arena : Arena) (root : NodeId) : Except Error Registry :=
  match arena.get? root with
  | some d => .ok (ofRoot root d)
  | none => .error (.unknownNode root)

def bucket (r : Registry) (b : Bucket) : Table String NodeId := r.declarations.get b

/-- The node filed under a name in a bucket. -/
def lookup (r : Registry) (b : Bucket) (name : String) : Option NodeId := (r.bucket b).get? name

def spaceOfPrefix? (r : Registry) (pfx : String) : Option String := r.prefixes.get? pfx

/-- Files a node under a name, over an earlier one. -/
def insert (r : Registry) (b : Bucket) (name : String) (node : NodeId) : Registry :=
  { r with declarations := r.declarations.set b ((r.bucket b).insert name node) }

def addReference (r : Registry) (reference : ExternalReference) : Registry :=
  { r with externalReferences := r.externalReferences ++ [reference] }

def size (r : Registry) : Nat := (Bucket.all.flatMap fun b => (r.bucket b).keys).length

/-- An inserted name is found in its bucket, and the others as before. -/
theorem lookup_insert (r : Registry) (b c : Bucket) (name name' : String) (node : NodeId) :
    (r.insert b name node).lookup c name' =
      if c = b ∧ name' = name then some node else r.lookup c name' := by
  by_cases h : c = b
  · subst h
    by_cases hn : name' = name
    · subst hn
      simp [lookup, bucket, insert, PerBucket.get_set]
    · simp [lookup, bucket, insert, PerBucket.get_set, Table.get?_insert_of_ne _ _ hn, hn]
  · simp [lookup, bucket, insert, PerBucket.get_set, h]

end Registry

end SchemaCatalog
