import SchemaCatalog.CommandLine.Report
import SchemaCatalog.CommandLine.Request
import SchemaCatalog.Graph.Dot

/-!
# SchemaCatalog.CommandLine.Run

What a call does: the text it prints, the file it writes, and the status it ends with. A call that
is wrong ends with status 2; work that was given up ends with status 1 and one line that says why.
-/

namespace SchemaCatalog.CommandLine

open Files (Tree)

/-- What the work on a request results in. -/
structure Result where
  printed : String := ""
  written : Option (String × String) := none
  deriving DecidableEq, Repr, Inhabited

/-- A text that goes to a file, or is printed with something behind it. -/
def Result.to (output : Option String) (text behind : String) : Result :=
  match output with
  | some path => { written := some (path, text) }
  | none => { printed := text ++ behind }

def Request.perform (settings : Settings) (tree : Tree) : Request → Except Failure Result
  | .build paths lenient output =>
    match Catalog.build settings tree paths (settings.resolve.strict && ! lenient) with
    | .error failure => .error failure
    | .ok c => (c.graph true).map fun g =>
      .to output (settings.output.format.write (c.report g)) "\n"
  | .graph paths containmentOnly output =>
    match Catalog.build settings tree paths false with
    | .error failure => .error failure
    | .ok c => (c.graph (! containmentOnly)).map fun g => .to output (g.dot c.session.arena) ""
  | .showSettings true => .ok { printed := settings.encode.pretty ++ "\n" }
  | .showSettings false => .ok { printed := settings.fileText ++ "\n" }
  | .initSettings output =>
    .ok { printed := s!"Created config file: {output}\n"
          written := some (output, ({} : Settings).fileText) }

/-- How a call ends. -/
structure Outcome where
  status : Nat
  printed : String := ""
  complaint : String := ""
  written : Option (String × String) := none
  deriving DecidableEq, Repr, Inhabited

def usage : String :=
  "Usage: schema-catalog [-c FILE] COMMAND\n\n" ++
    "  build [--lenient] [-o FILE] PATH...           summarise documents as JSON\n" ++
    "  graph [--containment-only] [-o FILE] PATH...  show their declarations as a DOT graph\n" ++
    "  config show [--json]                          show the settings that hold\n" ++
    "  config init [-o FILE]                         write a settings file\n"

def Outcome.ofFailure (failure : Failure) : Outcome :=
  { status := 1, complaint := s!"Error: {failure.message}\n" }

/-- The end of work with a result. If its file cannot be written, nothing is printed. -/
def Outcome.ofResult (tree : Tree) (r : Result) : Outcome :=
  match r.written.map fun file => tree.writable file.1 with
  | some (.error fault) => .ofFailure (.unwritable fault)
  | _ => { status := 0, printed := r.printed, written := r.written }

/-- Does what the arguments of a call ask for. The settings are read first. -/
def run (sources : Settings.Sources) (arguments : List String) : Outcome :=
  match Invocation.ofArguments arguments with
  | .error .help => { status := 0, printed := usage }
  | .error .wrong => { status := 2, complaint := usage }
  | .ok call => match Settings.load sources call.settings with
    | .error e => .ofFailure (.refused e)
    | .ok settings => match call.request.perform settings sources.tree with
      | .error failure => .ofFailure failure
      | .ok r => .ofResult sources.tree r

end SchemaCatalog.CommandLine
