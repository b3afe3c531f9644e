import SchemaCatalog.Diagnostics
import SchemaCatalog.Reference.Resolver
import SchemaCatalog.Registry.Filing
import SchemaCatalog.Registry.Merge
import SchemaCatalog.Registry.Summary

/-!
# SchemaCatalog.Session

A session owns the arena and one registry per target namespace. Adding a document files its
top-level declarations into a registry of its own first and folds that into the registry of the
document's namespace, so a document that cannot be filed changes nothing.
-/

namespace SchemaCatalog

/-- All registries of one run, the declarations in them, and the notes made on the way. -/
structure Session where
  arena : Arena := ∅
  registries : Table String Registry := ∅
  builtins : Builtins := .xsd
  dedup : Bool := true
  diagnostics : Diagnostics := {}
  deriving DecidableEq, Inhabited

namespace Session

def filingNotes (space : String) (filings : List (NodeId × Filing)) : List Diagnostic :=
  filings.filterMap fun (node, filing) => match filing with
    | .declared b name (some _) => some (.redefinition space b name node)
    | .missingLocation => some (.missingLocation space node)
    | _ => none

/-- The notes on the names that a merge redefined, with the node that stands there now. -/
def mergeNotes (merged : Registry) (redefined : List (Bucket × String)) : List Diagnostic :=
  redefined.filterMap fun (b, name) =>
    (merged.lookup b name).map (.redefinition merged.targetSpace b name)

/-- Stores the registry of a document, or folds it into the registry of its namespace. -/
def fold (s : Session) (fragment : Registry) : Session :=
  match s.registries.get? fragment.targetSpace with
  | none => { s with registries := s.registries.insert fragment.targetSpace fragment }
  | some existing =>
    let (merged, report) := existing.mergeWith s.dedup fragment
    { s with
      registries := s.registries.insert fragment.targetSpace merged
      diagnostics := s.diagnostics.append (mergeNotes merged report.redefined) }

/-- Adds a document, given by its root, to the registry of its target namespace. -/
def addDocument (s : Session) (root : NodeId) : Except Error Session :=
  match Registry.forDocument s.arena root with
  | .error e => .error e
  | .ok fresh =>
    match fresh.fileChildren s.builtins s.arena root with
    | (_, .error e) => .error e
    | (fragment, .ok filings) =>
      .ok ({ s with
        diagnostics := s.diagnostics.append (filingNotes fragment.targetSpace filings) }.fold
          fragment)

/-- Adds documents in order, up to the first that fails. -/
def addDocuments (s : Session) : List NodeId → Except Error Session
  | [] => .ok s
  | root :: rest => match s.addDocument root with
    | .ok s => s.addDocuments rest
    | .error e => .error e

def registry? (s : Session) (space : String) : Option Registry := s.registries.get? space

/-- The external references whose namespace has no registry, each with the namespace of the registry
that lists it. -/
def unfetched (s : Session) : List (String × ExternalReference) :=
  s.registries.values.flatMap fun r =>
    (r.externalReferences.filter fun e => ! s.registries.contains e.space).map fun e =>
      (r.targetSpace, e)

/-- Walks every registry, in the order of their namespaces. -/
def walkAll {σ : Type} (s : Session) (visit : Visitor σ) (state : σ) :
    Session × σ × Except Error Tally :=
  let (w, e) := Walk.through visit s.registries { arena := s.arena, state } s.registries.values
  ({ s with arena := w.arena }, w.state, match e with | some e => .error e | none => .ok w.tally)

/-- Walks the registry of one namespace, if there is one. -/
def walkSpace {σ : Type} (s : Session) (space : String) (visit : Visitor σ) (state : σ) :
    Session × σ × Except Error (Option Tally) :=
  match s.registries.get? space with
  | none => (s, state, .ok none)
  | some r =>
    let (w, e) := r.walk visit s.registries s.arena state
    ({ s with arena := w.arena }, w.state,
      match e with | some e => .error e | none => .ok (some w.tally))

def unfetchedNotes (s : Session) : List Diagnostic :=
  s.unfetched.map fun (space, e) => .unfetchedReference space e.space e.location

/-- The note on a name that was left open, under the namespace of the node it stands on. -/
def openNote (arena : Arena) (o : OpenReference) : Diagnostic :=
  .unresolvedReference (((arena.get? o.node).map (·.space)).getD "") o.node o.attr o.name

/-- Resolves the references of everything that is not processed yet. The notes on unfetched
references are made in any case, those on names left open if the walk succeeds. -/
def resolveReferences (s : Session) (strict : Bool) : Session × Except Error Resolver :=
  let s := { s with diagnostics := s.diagnostics.append s.unfetchedNotes }
  match s.walkAll Resolver.visit { builtins := s.builtins, strict } with
  | (s, _, .error e) => (s, .error e)
  | (s, r, .ok _) =>
    ({ s with diagnostics := s.diagnostics.append (r.unresolved.map (openNote s.arena)) }, .ok r)

/-- The summaries of all registries, in the order of their namespaces. -/
def summaries (s : Session) : List Summary := s.registries.values.map (·.summary)

end Session

end SchemaCatalog
