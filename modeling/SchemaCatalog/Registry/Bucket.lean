import SchemaCatalog.Declaration.Kind

/-!
# SchemaCatalog.Registry.Bucket

The six buckets of a registry, one for each kind of named top-level declaration, and families that
hold one value per bucket.
-/

namespace SchemaCatalog

/-- Where a registry files a named declaration. -/
inductive Bucket
  | complexTypes
  | simpleTypes
  | elements
  | groups
  | attributes
  | attributeGroups
  deriving DecidableEq, Repr, Inhabited

namespace Bucket

/-- All buckets, in the order in which they are listed. -/
def all : List Bucket :=
  [complexTypes, simpleTypes, elements, groups, attributes, attributeGroups]

/-- The bucket for declarations of a kind, if they are filed at all. -/
def ofKind? : Kind → Option Bucket
  | .complexType => some complexTypes
  | .simpleType => some simpleTypes
  | .element => some elements
  | .group => some groups
  | .attr => some attributes
  | .attrGroup => some attributeGroups
  | .schema | .inclusion | .importation | .remark | .other _ => none

def name : Bucket → String
  | complexTypes => "complexTypes"
  | simpleTypes => "simpleTypes"
  | elements => "elements"
  | groups => "groups"
  | attributes => "attributes"
  | attributeGroups => "attributeGroups"

def byName : List (String × Bucket) := all.map fun b => (b.name, b)

instance : ToString Bucket := ⟨name⟩

theorem mem_all (b : Bucket) : b ∈ all := by
  cases b <;> decide

theorem name_injective {b b' : Bucket} (h : b.name = b'.name) : b = b' := by
  cases b <;> cases b' <;> first | rfl | exact absurd h (by decide)

end Bucket

/-- One value for each bucket. -/
structure PerBucket (α : Type) where
  complexTypes : α
  simpleTypes : α
  elements : α
  groups : α
  attributes : α
  attributeGroups : α
  deriving DecidableEq, Repr, Inhabited

namespace PerBucket

variable {α β : Type}

def fill (a : α) : PerBucket α := ⟨a, a, a, a, a, a⟩

def get (p : PerBucket α) : Bucket → α
  | .complexTypes => p.complexTypes
  | .simpleTypes => p.simpleTypes
  | .elements => p.elements
  | .groups => p.groups
  | .attributes => p.attributes
  | .attributeGroups => p.attributeGroups

def set (p : PerBucket α) (b : Bucket) (a : α) : PerBucket α :=
  match b with
  | .complexTypes => { p with complexTypes := a }
  | .simpleTypes => { p with simpleTypes := a }
  | .elements => { p with elements := a }
  | .groups => { p with groups := a }
  | .attributes => { p with attributes := a }
  | .attributeGroups => { p with attributeGroups := a }

def ofFn (f : Bucket → α) : PerBucket α :=
  ⟨f .complexTypes, f .simpleTypes, f .elements, f .groups, f .attributes, f .attributeGroups⟩

@[simp] theorem get_fill (a : α) (b : Bucket) : (fill a).get b = a := by
  cases b <;> rfl

@[simp] theorem get_ofFn (f : Bucket → α) (b : Bucket) : (ofFn f).get b = f b := by
  cases b <;> rfl

theorem get_set (p : PerBucket α) (b c : Bucket) (a : α) :
    (p.set b a).get c = if c = b then a else p.get c := by
  cases b <;> cases c <;> rfl

@[ext] theorem ext {p q : PerBucket α} (h : ∀ b, p.get b = q.get b) : p = q := by
  cases p; cases q
  simpa [get] using And.intro (h .complexTypes) <| And.intro (h .simpleTypes) <|
    And.intro (h .elements) <| And.intro (h .groups) <| And.intro (h .attributes)
    (h .attributeGroups)

end PerBucket

end SchemaCatalog
