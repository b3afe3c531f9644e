import SchemaCatalog.Registry.Basic

/-!
# SchemaCatalog.Registry.Summary

What a registry shows of itself: the names in each bucket and the external references.
-/

namespace SchemaCatalog

/-- The names per bucket and the external references of a registry. -/
structure Summary where
  targetSpace : String
  names : PerBucket (List String) := .fill []
  externalReferences : List ExternalReference := []
  deriving DecidableEq, Repr, Inhabited

def Registry.summary (r : Registry) : Summary where
  targetSpace := r.targetSpace
  names := .ofFn fun b => (r.bucket b).keys
  externalReferences := r.externalReferences

end SchemaCatalog
