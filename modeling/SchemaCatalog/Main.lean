import SchemaCatalog.CommandLine.Run

/-!
# SchemaCatalog.Main

The program: it looks at the files that a call may read, leaves the work to `CommandLine.run`, and
then prints and writes what came of it.
-/

namespace SchemaCatalog.Main

open Files (Tree Place)

def look (path : String) : IO (Option Files.Node) := do
  try
    let real ← IO.FS.realPath path
    if ← real.isDir then return some .directory
    return some (.file (← IO.FS.readBinFile real))
  catch _ => return none

def names (path : String) : IO (List String) := do
  try
    let real ← IO.FS.realPath path
    return (← real.readDir).toList.map (·.fileName)
  catch _ => return []

partial def addBelow (path : String) (place : Place) (t : Tree) : IO Tree := do
  let mut t := t
  for name in ← names path do
    let inner := Files.join path name
    match ← look inner with
    | none => pure ()
    | some (.file content) => t := t.put (place ++ [name]) (.file content)
    | some .directory =>
      t ← addBelow inner (place ++ [name]) (t.put (place ++ [name]) .directory)
  return t

/-- Adds what lies on the way of a path to a tree, and if `deep` is set also what lies below it. -/
def addPath (deep : Bool) (t : Tree) (path : String) : IO Tree := do
  let origin := Tree.origin path
  let mut t := if origin.isEmpty then t else t.put origin .directory
  let mut place := origin
  let mut sofar := if origin.isEmpty then "." else "/"
  for name in Files.components path do
    if name = "" || name = "." then continue
    place := if name = ".." then Tree.above place else place ++ [name]
    sofar := Files.join sofar name
    match ← look sofar with
    | none => return t
    | some node => if ! place.isEmpty then t := t.put place node
  if deep then addBelow sofar place t else return t

def environment : IO (List (String × String)) := do
  try
    let text := Text.ofBytesLossy (← IO.FS.readBinFile "/proc/self/environ")
    return (text.splitOn "\x00").filterMap fun v =>
      match v.splitOn "=" with
      | name :: value@(_ :: _) => some (name, "=".intercalate value)
      | _ => none
  catch _ => return []

def userDirectory : IO (Option String) := do
  match (← IO.getEnv "XDG_CONFIG_HOME").filter fun d => Files.beginsWith d "/" with
  | some directory => return some directory
  | none => return (← IO.getEnv "HOME").map fun home => Files.join home ".config"

/-- The paths that a call reads settings from, and those that it reads or writes otherwise. -/
def paths (user : Option String) (call : CommandLine.Invocation) :
    List String × List String × List String :=
  let settings := Settings.localFiles ++
    (user.map fun d => Files.join (Files.join d "xsd-registry") Settings.fileName).toList ++
    call.settings.toList
  let (documents, output) := match call.request with
    | .build paths _ output | .graph paths _ output => (paths, output.toList)
    | .showSettings _ => ([], [])
    | .initSettings output => ([], [output])
  (settings ++ settings.filterMap Settings.withExtension?, documents, output)

/-- The files that a call may read. -/
def snapshot (user : Option String) (call : CommandLine.Invocation) : IO Tree := do
  let (settings, documents, output) := paths user call
  let t ← (settings ++ output).foldlM (addPath false) {}
  documents.foldlM (addPath true) t

end SchemaCatalog.Main

open SchemaCatalog in
def main (arguments : List String) : IO UInt32 := do
  let user ← Main.userDirectory
  let tree ← match CommandLine.Invocation.ofArguments arguments with
    | .ok call => Main.snapshot user call
    | .error _ => pure {}
  let sources : Settings.Sources :=
    { tree, userDirectory := user, environment := ← Main.environment }
  let outcome := CommandLine.run sources arguments
  match outcome.written with
  | some (path, text) => IO.FS.writeFile path text
  | none => pure ()
  IO.print outcome.printed
  IO.eprint outcome.complaint
  return outcome.status.toUInt32
