import SchemaCatalog.Decimal.Binary64

/-!
# SchemaCatalog.Toml.Value

The values of settings files.
-/

namespace SchemaCatalog.Toml

/-- A value; the entries of a table keep their order and have different keys. -/
inductive Value
  | text (text : String)
  | integer (number : Int)
  | float (number : Decimal.Binary64)
  | flag (flag : Bool)
  | list (items : List Value)
  | table (entries : List (String × Value))
  deriving Repr, Inhabited

def find? {α : Type} (entries : List (String × α)) (key : String) : Option α := entries.lookup key

/-- Stores a value under a key, at the place of an earlier one or else at the end. -/
def store {α : Type} (key : String) (a : α) : List (String × α) → List (String × α)
  | [] => [(key, a)]
  | (k, b) :: rest => if k = key then (key, a) :: rest else (k, b) :: store key a rest

end SchemaCatalog.Toml
