import SchemaCatalog.CommandLine.Arguments
import SchemaCatalog.Settings.Load

/-!
# SchemaCatalog.CommandLine.Request

What can be asked for on the command line: a summary of the registries of some documents, the graph
of their declarations, the settings that hold, or a new settings file. The file with further
settings may be named at any command; the innermost one counts.
-/

namespace SchemaCatalog.CommandLine

inductive Request
  | build (paths : List String) (lenient : Bool) (output : Option String)
  | graph (paths : List String) (containmentOnly : Bool) (output : Option String)
  | showSettings (asJson : Bool)
  | initSettings (output : String)
  deriving DecidableEq, Repr

/-- What is asked for, and the file with further settings. -/
structure Invocation where
  settings : Option String
  request : Request
  deriving DecidableEq, Repr

/-! ## Commands -/

/-- The option that names a file with further settings. -/
def settingsOption : Opt := { long := "config", short := some 'c', kind := .text }

def outputOption (kind : OptionKind) : Opt := { long := "output", short := some 'o', kind }

def helpCommand : String := "help"

def topLevel : Level :=
  { options := [settingsOption], commands := ["build", "graph", "config", helpCommand] }

def buildLevel : Level :=
  { options := [settingsOption, { long := "lenient" }, outputOption .path], operands := true }

def graphLevel : Level :=
  { options := [settingsOption, { long := "containment-only" }, outputOption .path]
    operands := true }

def settingsLevel : Level :=
  { options := [settingsOption], commands := ["show", "init", helpCommand] }

def showLevel : Level := { options := [settingsOption, { long := "json" }] }

def initLevel : Level := { options := [settingsOption, outputOption .text] }

def helpTopics : List (List String) :=
  [[], ["build"], ["graph"], ["config"], ["config", "show"], ["config", "init"],
    ["config", helpCommand], [helpCommand]]

def askHelp (topic : List String) : Usage := if helpTopics.contains topic then .help else .wrong

/-! ## Requests -/

/-- A request, and the settings file that was named on the way to it. -/
abbrev Asked := Except Usage (Option String × Request)

/-- Reads the arguments of a command without others below it. -/
def readLeaf (l : Level) (arguments : List String) (request : Found → Option Request) : Asked :=
  match l.scan {} none arguments with
  | .error u => .error u
  | .ok (f, _) =>
    if f.isRight then
      match request f with
      | some r => .ok (f.value? settingsOption.long, r)
      | none => .error .wrong
    else .error .wrong

def readBranch (l : Level) (arguments : List String) (below : String → List String → Asked) :
    Asked :=
  match l.scan {} none arguments with
  | .error u => .error u
  | .ok (_, none) => .error .wrong
  | .ok (f, some (name, rest)) => match below name rest with
    | .error u => .error u
    | .ok (settings, r) =>
      if f.isRight then .ok (settings <|> f.value? settingsOption.long, r) else .error .wrong

def buildRequest (f : Found) : Option Request :=
  if f.operands.isEmpty then none
  else some (.build f.operands (f.has "lenient") (f.value? "output"))

def graphRequest (f : Found) : Option Request :=
  if f.operands.isEmpty then none
  else some (.graph f.operands (f.has "containment-only") (f.value? "output"))

def readSettingsCommand (name : String) (rest : List String) : Asked :=
  if name = "show" then readLeaf showLevel rest fun f => some (.showSettings (f.has "json"))
  else if name = "init" then
    readLeaf initLevel rest fun f =>
      some (.initSettings ((f.value? "output").getD Settings.fileName))
  else .error (askHelp ("config" :: rest))

/-- Reads the arguments of a command. -/
def readCommand (name : String) (rest : List String) : Asked :=
  if name = "build" then readLeaf buildLevel rest buildRequest
  else if name = "graph" then readLeaf graphLevel rest graphRequest
  else if name = "config" then readBranch settingsLevel rest readSettingsCommand
  else .error (askHelp rest)

/-- Reads the arguments of a call. -/
def Invocation.ofArguments (arguments : List String) : Except Usage Invocation :=
  (readBranch topLevel arguments readCommand).map fun (settings, request) => { settings, request }

end SchemaCatalog.CommandLine
