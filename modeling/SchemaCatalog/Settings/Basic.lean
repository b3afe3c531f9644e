import SchemaCatalog.Files.Selection
import SchemaCatalog.Json.Basic
import SchemaCatalog.Session

/-!
# SchemaCatalog.Settings.Basic

What can be set from outside: which names are built in, how documents are merged and references
resolved, which files are fragments, and how a summary is written. Each section has its defaults.
-/

namespace SchemaCatalog

namespace Settings

/-- Which names are built in. -/
structure BuiltinSection where
  /-- Do the names of XML Schema belong to them? -/
  includeXsd : Bool := true
  /-- Further names, by namespace. -/
  extra : Table String (List String) := ∅
  deriving DecidableEq, Inhabited

structure MergeSection where
  /-- Leave external references out that are listed already. -/
  dedup : Bool := true
  deriving DecidableEq, Repr, Inhabited

structure ResolveSection where
  /-- Give up at the first open reference. -/
  strict : Bool := true
  deriving DecidableEq, Repr, Inhabited

/-- Which files of a directory are fragments. -/
structure LoaderSection where
  extension : String := "json"
  /-- Files whose relative path begins like one of these are passed over. -/
  skip : List String := ["target/", ".git/"]
  deriving DecidableEq, Repr, Inhabited

inductive Format
  | pretty
  | compact
  deriving DecidableEq, Repr, Inhabited

def Format.byName : List (String × Format) := [("pretty", .pretty), ("compact", .compact)]

def Format.name : Format → String
  | pretty => "pretty"
  | compact => "compact"

structure OutputSection where
  format : Format := .pretty
  deriving DecidableEq, Repr, Inhabited

end Settings

/-- Everything that can be set from outside. -/
structure Settings where
  builtins : Settings.BuiltinSection := {}
  merge : Settings.MergeSection := {}
  resolve : Settings.ResolveSection := {}
  loader : Settings.LoaderSection := {}
  output : Settings.OutputSection := {}
  deriving DecidableEq, Inhabited

namespace Settings

def builtinNames (s : Settings) : Builtins :=
  s.builtins.extra.entries.foldl (fun b e => b.extend e.1 e.2)
    (if s.builtins.includeXsd then .xsd else .none)

def session (s : Settings) : Session := { builtins := s.builtinNames, dedup := s.merge.dedup }

def selection (s : Settings) : Files.Selection :=
  { extension := s.loader.extension, skip := s.loader.skip }

def Format.write : Format → Json → String
  | pretty, v => v.pretty
  | compact, v => v.compact

end Settings

end SchemaCatalog
