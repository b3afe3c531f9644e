import SchemaCatalog.Registry.Basic

/-!
# SchemaCatalog.Registry.Merge

A registry absorbs another one of the same namespace. The source's declarations win, the target
keeps its prefixes, and its roots and external references come first. The report says which names
were there before.
-/

namespace SchemaCatalog

/-- What a merge changed. -/
structure MergeReport where
  /-- False when the namespaces differed and nothing happened. -/
  merged : Bool := false
  /-- The names that were there before, in bucket order and then by name. -/
  redefined : List (Bucket × String) := []
  added : Nat := 0
  referencesAdded : Nat := 0
  deriving DecidableEq, Repr, Inhabited

namespace Registry

/-- The references of a list that are not in `seen` and not a repetition within the list. -/
def freshReferences (seen : List ExternalReference) :
    List ExternalReference → List ExternalReference
  | [] => []
  | r :: rest =>
    if r ∈ seen then freshReferences seen rest else r :: freshReferences (r :: seen) rest

def appendedReferences (dedup : Bool) (target source : Registry) : List ExternalReference :=
  if dedup then freshReferences target.externalReferences source.externalReferences
  else source.externalReferences

/-- Appends the roots that are not listed yet. -/
def joinRoots (roots : List NodeId) (more : List NodeId) : List NodeId :=
  more.foldl (fun roots r => if r ∈ roots then roots else roots ++ [r]) roots

/-- Puts every entry of a bucket over the target's entries. -/
def overlay (target source : Table String NodeId) : Table String NodeId :=
  source.entries.foldl (fun t e => t.insert e.1 e.2) target

/-- The names of a source bucket that the target has, respectively has not. -/
def sharedNames (target source : Table String NodeId) : List String :=
  source.keys.filter target.contains

/-- The target after it has absorbed a source of the same namespace. -/
def absorb (dedup : Bool) (target source : Registry) : Registry :=
  { target with
    declarations := .ofFn fun b => overlay (target.bucket b) (source.bucket b)
    externalReferences := target.externalReferences ++ appendedReferences dedup target source
    roots := joinRoots target.roots source.roots }

def absorbReport (dedup : Bool) (target source : Registry) : MergeReport where
  merged := true
  redefined := Bucket.all.flatMap fun b =>
    (sharedNames (target.bucket b) (source.bucket b)).map fun name => (b, name)
  added := (Bucket.all.flatMap fun b =>
    (source.bucket b).keys.filter (! (target.bucket b).contains ·)).length
  referencesAdded := (appendedReferences dedup target source).length

/-- Merges a source into a target. With `dedup` the source's references that the target lists are
dropped. A source of another namespace changes nothing. -/
def mergeWith (dedup : Bool) (target source : Registry) : Registry × MergeReport :=
  if target.targetSpace = source.targetSpace then
    (absorb dedup target source, absorbReport dedup target source)
  else (target, {})

def merge (target source : Registry) : Registry := (mergeWith true target source).1

end Registry

end SchemaCatalog
