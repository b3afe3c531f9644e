import SchemaCatalog.Declaration.Basic
import SchemaCatalog.Text.Blank

/-!
# SchemaCatalog.Reference.Name

Qualified names as they stand in reference attributes: a prefix up to the first colon, if there is
one, and a local name. The prefix is looked up among the bindings of the document that the reference
stands in.
-/

namespace SchemaCatalog

/-- A name with an optional prefix. -/
structure QualifiedName where
  pfx : Option String
  localName : String
  deriving DecidableEq, Repr, Inhabited

namespace QualifiedName

/-- Splits a name at its first colon. -/
def ofText (text : String) : QualifiedName :=
  match text.toList.span (· != ':') with
  | (front, _ :: back) => ⟨some (String.ofList front), String.ofList back⟩
  | (_, []) => ⟨none, text⟩

/-- The namespace of the prefix `xml`, which every document binds. -/
def xmlSpace : String := "http://www.w3.org/XML/1998/namespace"

/-- The namespace of a name that stands on `node` in a document with the given root: the binding of
the prefix, or without a prefix the default namespace, else the node's own. -/
def space? (q : QualifiedName) (root node : Declaration) : Option String :=
  match q.pfx with
  | none => some ((root.binding? "").getD node.space)
  | some pfx => if pfx = "xml" then some xmlSpace else root.binding? pfx

end QualifiedName

end SchemaCatalog
