import SchemaCatalog.Table

/-!
# SchemaCatalog.Builtins

Names that a namespace knows without declaring them. A declaration of such a name is not filed, and
a reference to it needs no target. XML Schema's own namespace comes with its datatypes; settings can
add names of any namespace.
-/

namespace SchemaCatalog

/-- The names known without a declaration, by namespace. -/
structure Builtins where
  bySpace : Table String (List String) := ∅
  deriving DecidableEq, Inhabited

namespace Builtins

def xsdSpace : String := "http://www.w3.org/2001/XMLSchema"

/-- The datatypes of XML Schema and the two types above them all. -/
def xsdNames : List String :=
  ["anyType", "anySimpleType", "string", "boolean", "decimal", "float", "double", "duration",
    "dateTime", "time", "date", "gYearMonth", "gYear", "gMonthDay", "gDay", "gMonth", "hexBinary",
    "base64Binary", "anyURI", "QName", "NOTATION", "normalizedString", "token", "language",
    "NMTOKEN", "NMTOKENS", "Name", "NCName", "ID", "IDREF", "IDREFS", "ENTITY", "ENTITIES",
    "integer", "nonPositiveInteger", "negativeInteger", "long", "int", "short", "byte",
    "nonNegativeInteger", "unsignedLong", "unsignedInt", "unsignedShort", "unsignedByte",
    "positiveInteger"]

/-- No names at all: nothing is suppressed. -/
def none : Builtins := {}

/-- Adds names to a namespace, which becomes known even if there are none. -/
def extend (b : Builtins) (space : String) (names : List String) : Builtins :=
  ⟨b.bySpace.alter space fun known => known.getD [] ++ names⟩

def xsd : Builtins := none.extend xsdSpace xsdNames

def contains (b : Builtins) (space name : String) : Bool :=
  ((b.bySpace.get? space).getD []).contains name

def spaces (b : Builtins) : List String := b.bySpace.keys

/-- An extension answers for its own names, and for the others as before. -/
theorem contains_extend (b : Builtins) (space name space' : String) (names : List String) :
    (b.extend space names).contains space' name =
      (b.contains space' name || (space' == space && names.contains name)) := by
  by_cases h : space' = space
  · subst h
    simp [contains, extend, Table.alter]
  · simp [contains, extend, Table.alter, Table.get?_insert_of_ne _ _ h, h]

end Builtins

end SchemaCatalog
