import SchemaCatalog.Declaration.Kind
import SchemaCatalog.Table

/-!
# SchemaCatalog.Declaration.Basic

A declaration as it stands in the arena: its kind, name, namespace and attributes, the ids of its
children, and the flag that a walk sets on it. Children are plain ids, so one declaration can stand
below several others, and below itself.
-/

namespace SchemaCatalog

/-- The place of a declaration in the arena. -/
structure NodeId where
  index : Nat
  deriving DecidableEq, Repr, Inhabited

namespace NodeId

instance : Ord NodeId := ⟨compareOn NodeId.index⟩

instance : Std.TransOrd NodeId := inferInstanceAs (Std.TransCmp (compareOn NodeId.index))

instance : Std.LawfulEqOrd NodeId where
  eq_of_compare {a b} h := by
    cases a; cases b
    exact congrArg NodeId.mk (Nat.compare_eq_eq.1 h)

instance : ToString NodeId := ⟨fun id => s!"node#{id.index}"⟩

end NodeId

/-- One parsed declaration. -/
structure Declaration where
  kind : Kind
  name : Option String := none
  /-- The target namespace of the document that the declaration was parsed from. -/
  space : String
  attributes : Table String String := ∅
  children : List NodeId := []
  /-- Set by a walk once its visitor has accepted the declaration. -/
  processed : Bool := false
  deriving DecidableEq, Inhabited

namespace Declaration

def attr? (d : Declaration) (key : String) : Option String := d.attributes.get? key

/-- The attribute that binds a prefix; the empty prefix stands for the default namespace. -/
def bindingKey (pfx : String) : String := if pfx = "" then "xmlns" else "xmlns:" ++ pfx

/-- The namespace that the declaration's own `xmlns` attributes bind to a prefix. -/
def binding? (d : Declaration) (pfx : String) : Option String := d.attr? (bindingKey pfx)

end Declaration

end SchemaCatalog
