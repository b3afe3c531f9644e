import SchemaCatalog.Json.Reader
import SchemaCatalog.Registry.Bucket
import SchemaCatalog.Declaration.Basic

/-!
# SchemaCatalog.Encoding.Basic

How ids, kinds and buckets stand in JSON, and how they are read back: an id as its number, a bucket
as its name, a kind as its name in data or, outside the vocabulary, as an object that holds its tag.
-/

namespace SchemaCatalog

open Json (Reader)

/-! ## Ids -/

def NodeId.encode (id : NodeId) : Json := .nat id.index

def NodeId.reader : Reader NodeId := fun d => (Reader.natural d).map NodeId.mk

/-! ## Kinds -/

namespace Kind

def otherName : String := "Other"

/-- The kinds that have a name of their own in data, with that name. -/
def byDataName : List (String × Kind) :=
  [("Schema", .schema), ("Include", .inclusion), ("Import", .importation),
    ("ComplexType", .complexType), ("SimpleType", .simpleType), ("Element", .element),
    ("Group", .group), ("Attribute", .attr), ("AttributeGroup", .attrGroup),
    ("Annotation", .remark)]

def encode : Kind → Json
  | schema => .string "Schema"
  | inclusion => .string "Include"
  | importation => .string "Import"
  | complexType => .string "ComplexType"
  | simpleType => .string "SimpleType"
  | element => .string "Element"
  | group => .string "Group"
  | attr => .string "Attribute"
  | attrGroup => .string "AttributeGroup"
  | remark => .string "Annotation"
  | other tag => .object [(otherName, .string tag)]

def reader : Reader Kind :=
  Reader.choice fun name =>
    if name = otherName then some (.holding .other) else (byDataName.lookup name).map .plain

end Kind

/-! ## Buckets -/

def Bucket.encode (b : Bucket) : Json := .string b.name

def Bucket.reader : Reader Bucket := Reader.named byName

end SchemaCatalog
