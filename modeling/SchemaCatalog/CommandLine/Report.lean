import SchemaCatalog.Encoding.Diagnostics
import SchemaCatalog.Encoding.Summary
import SchemaCatalog.Fragment.Bundle
import SchemaCatalog.Graph.Cycles
import SchemaCatalog.Settings.Encoding

/-!
# SchemaCatalog.CommandLine.Report

The work behind a request on documents: they are loaded, filed into registries and resolved, and the
result is reported.
-/

namespace SchemaCatalog.CommandLine

/-- Why the work on a request was given up. -/
inductive Failure
  | load (failure : LoadFailure)
  | refused (cause : Error)
  | unwritable (fault : Files.Fault)
  deriving DecidableEq, Repr

def Failure.message : Failure → String
  | load failure => failure.message
  | refused cause => cause.message
  | unwritable fault => fault.message

/-- Documents that were loaded, filed and resolved. -/
structure Catalog where
  bundle : Bundle
  session : Session
  resolver : Resolver

/-- Loads, files and resolves the documents of some paths. -/
def Catalog.build (settings : Settings) (tree : Files.Tree) (paths : List String) (strict : Bool) :
    Except Failure Catalog :=
  let session := settings.session
  match session.arena.loadPaths tree settings.selection paths with
  | (_, .error failure) => .error (.load failure)
  | (arena, .ok bundle) => match { session with arena }.addDocuments bundle.roots with
    | .error e => .error (.refused e)
    | .ok session => match session.resolveReferences strict with
      | (_, .error e) => .error (.refused e)
      | (session, .ok resolver) => .ok { bundle, session, resolver }

def Catalog.graph (c : Catalog) (references : Bool) : Except Failure Graph :=
  match Graph.build c.session (if references then some c.resolver else none) with
  | .ok g => .ok g
  | .error e => .error (.refused e)

def Catalog.report (c : Catalog) (g : Graph) : Json :=
  .object
    [("bundleHash", .string c.bundle.hash), ("documents", .nat c.bundle.documents.length),
      ("resolvedReferences", .nat c.resolver.resolutions.length),
      ("registries", .array (c.session.summaries.map Summary.encode)),
      ("recursiveGroups",
        .array (g.recursiveGroups.map fun group => .array (group.map NodeId.encode))),
      ("diagnostics", .array (c.session.diagnostics.items.map Diagnostic.encode))]

end SchemaCatalog.CommandLine
