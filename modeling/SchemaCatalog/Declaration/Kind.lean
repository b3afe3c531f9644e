/-!
# SchemaCatalog.Declaration.Kind

The kinds of declarations in a schema document. A tag is written with or without a prefix; only the
part behind its last colon counts, and a tag outside the vocabulary is kept as it is.
-/

namespace SchemaCatalog

inductive Kind
  | schema
  | inclusion
  | importation
  | complexType
  | simpleType
  | element
  | group
  | attr
  | attrGroup
  | remark
  /-- A tag outside the vocabulary. -/
  | other (tag : String)
  deriving DecidableEq, Repr, Inhabited

namespace Kind

/-- The part of a tag behind its last colon. -/
def localTag (tag : String) : String :=
  String.ofList (tag.toList.reverse.takeWhile (· != ':')).reverse

/-- The kinds that have a tag of their own, with that tag. -/
def vocabulary : List (String × Kind) :=
  [("schema", .schema), ("include", .inclusion), ("import", .importation),
    ("complexType", .complexType), ("simpleType", .simpleType), ("element", .element),
    ("group", .group), ("attribute", .attr), ("attributeGroup", .attrGroup),
    ("annotation", .remark)]

/-- The kind that a tag, with or without a prefix, stands for. -/
def ofTag (tag : String) : Kind :=
  ((vocabulary.lookup (localTag tag))).getD (.other (localTag tag))

def tag : Kind → String
  | schema => "schema"
  | inclusion => "include"
  | importation => "import"
  | complexType => "complexType"
  | simpleType => "simpleType"
  | element => "element"
  | group => "group"
  | attr => "attribute"
  | attrGroup => "attributeGroup"
  | remark => "annotation"
  | other tag => tag

instance : ToString Kind := ⟨tag⟩

/-- A kind of the vocabulary is read back from its tag. -/
theorem ofTag_tag_of_mem {e : String × Kind} (h : e ∈ vocabulary) : ofTag (tag e.2) = e.2 := by
  revert e
  decide +kernel

end Kind

end SchemaCatalog
