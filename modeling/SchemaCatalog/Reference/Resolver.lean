import SchemaCatalog.Builtins
import SchemaCatalog.Reference.Name
import SchemaCatalog.Walk

/-!
# SchemaCatalog.Reference.Resolver

The usual visitor of a walk: it finds the declarations that the reference attributes of a node name.
Each attribute searches its own buckets, in order. A strict resolver refuses a node at the first
name that it cannot resolve; a lenient one notes the name and goes on.
-/

namespace SchemaCatalog

inductive Resolution
  | declared (space : String) (bucket : Bucket) (node : NodeId)
  | builtin (space name : String)
  deriving DecidableEq, Repr

def Resolution.node? : Resolution → Option NodeId
  | declared _ _ node => some node
  | builtin _ _ => none

/-- A name that a lenient resolver left open. -/
structure OpenReference where
  node : NodeId
  attr : String
  name : String
  reason : String
  deriving DecidableEq, Repr

structure Site where
  node : NodeId
  attr : String
  deriving DecidableEq, Repr

namespace Site

instance : Ord Site := ⟨compareLex (compareOn Site.node) (compareOn Site.attr)⟩

instance : Std.TransOrd Site :=
  inferInstanceAs (Std.TransCmp (compareLex (compareOn Site.node) (compareOn Site.attr)))

instance : Std.LawfulEqOrd Site where
  eq_of_compare {a b} h := by
    obtain ⟨h₁, h₂⟩ := Ordering.then_eq_eq.1 h
    cases a; cases b
    exact congr (congrArg Site.mk (Std.LawfulEqCmp.eq_of_compare h₁))
      (Std.LawfulEqCmp.eq_of_compare h₂)

end Site

/-- What a resolver has found so far. -/
structure Resolver where
  builtins : Builtins := .xsd
  /-- Refuse a node at its first open reference. -/
  strict : Bool := true
  /-- The resolutions of each reference attribute, in the order of its names. -/
  resolved : Table Site (List Resolution) := ∅
  /-- The names left open, in the order in which they were met. -/
  unresolved : List OpenReference := []
  deriving DecidableEq, Inhabited

namespace Resolver

def resolution? (r : Resolver) (node : NodeId) (attr : String) : Option (List Resolution) :=
  r.resolved.get? ⟨node, attr⟩

/-- All resolutions, by node, attribute and position. -/
def resolutions (r : Resolver) : List (Site × Resolution) :=
  r.resolved.entries.flatMap fun (site, found) => found.map fun f => (site, f)

/-- The bucket that the attribute `ref` searches on a node of some kind. -/
def refBucket? : Kind → Option Bucket
  | .element => some .elements
  | .attr => some .attributes
  | .group => some .groups
  | .attrGroup => some .attributeGroups
  | _ => none

/-- The reference attributes of a node of some kind, with the buckets that each of them searches. -/
def searches (kind : Kind) : List (String × List Bucket) :=
  [("type", [.complexTypes, .simpleTypes]), ("base", [.complexTypes, .simpleTypes]),
    ("itemType", [.simpleTypes]), ("memberTypes", [.simpleTypes]),
    ("substitutionGroup", [.elements])] ++
  match refBucket? kind with
  | some b => [("ref", [b])]
  | none => []

/-- The first of some buckets in which a registry has a name. -/
def findIn (registry : Registry) (name : String) (space : String) : List Bucket → Option Resolution
  | [] => none
  | b :: rest => match registry.lookup b name with
    | some node => some (.declared space b node)
    | none => findIn registry name space rest

/-- Resolves one name that stands in an attribute of a node. -/
def resolveName (builtins : Builtins) (scope : Scope) (id : NodeId) (d : Declaration)
    (attr : String) (buckets : List Bucket) (text : String) : Except Error Resolution :=
  match scope.arena.get? scope.root with
  | none => .error (.unknownNode scope.root)
  | some root =>
    let q := QualifiedName.ofText text
    match q.space? root d with
    | none => .error (.unknownPrefix id (q.pfx.getD ""))
    | some space =>
      if builtins.contains space q.localName then .ok (.builtin space q.localName)
      else
        match (scope.registries.get? space).bind fun r => findIn r q.localName space buckets with
        | some found => .ok found
        | none => .error (.unresolvedReference id attr text)

/-- Notes a resolution behind the earlier ones of its attribute. -/
def note (r : Resolver) (site : Site) (found : Resolution) : Resolver :=
  { r with resolved := r.resolved.alter site fun before => before.getD [] ++ [found] }

def leaveOpen (r : Resolver) (site : Site) (name : String) (e : Error) : Resolver :=
  { r with unresolved :=
      r.unresolved ++ [{ node := site.node, attr := site.attr, name, reason := e.message }] }

/-- Resolves names that stand in an attribute of a node, in order. -/
def resolveNames (scope : Scope) (id : NodeId) (d : Declaration) (attr : String)
    (buckets : List Bucket) : Resolver → List String → Resolver × Option Error
  | r, [] => (r, none)
  | r, name :: rest =>
    match resolveName r.builtins scope id d attr buckets name with
    | .ok found => resolveNames scope id d attr buckets (r.note ⟨id, attr⟩ found) rest
    | .error e =>
      if r.strict then (r, some e)
      else resolveNames scope id d attr buckets (r.leaveOpen ⟨id, attr⟩ name e) rest

def resolveAttributes (scope : Scope) (id : NodeId) (d : Declaration) :
    Resolver → List (String × List Bucket) → Resolver × Option Error
  | r, [] => (r, none)
  | r, (attr, buckets) :: rest =>
    match resolveNames scope id d attr buckets r (((d.attr? attr).map Text.words).getD []) with
    | (r, some e) => (r, some e)
    | (r, none) => resolveAttributes scope id d r rest

/-- Resolves all references of a node. -/
def visit : Visitor Resolver := fun scope id r =>
  match scope.arena.get? id with
  | none => (r, some (.unknownNode id))
  | some d => resolveAttributes scope id d r (searches d.kind)

end Resolver

end SchemaCatalog
