import SchemaCatalog.Decimal.Literal
import SchemaCatalog.Settings.Decoding
import SchemaCatalog.Text.Lossy
import SchemaCatalog.Toml.Document
import SchemaCatalog.Toml.Writer

/-!
# SchemaCatalog.Settings.Load

Where settings come from: files in the working directory, the user's own file, a file that is named,
and the environment, later ones over earlier ones. Files may be missing unless they are named; a
file that is there has to be right.
-/

namespace SchemaCatalog

open Files (Tree)

namespace Settings

/-! ## Files -/

def fileName : String := "xsd-registry.toml"

/-- The settings files of the working directory, the weakest first. -/
def localFiles : List String := [fileName, "." ++ fileName, "config/" ++ fileName]

def fileExtension : String := "toml"

/-- The path with the extension of settings files appended to its last name. -/
def withExtension? (path : String) : Option String :=
  match (Files.components path).reverse.dropWhile fun c => c = "" || c = "." with
  | [] => none
  | last :: parents =>
    if last = ".." then none
    else some ("/".intercalate (parents.reverse ++ [last ++ "." ++ fileExtension]))

/-- The settings file that a name stands for: the file of that name, or with the extension
appended. -/
def findFile (t : Tree) (path : String) : Option String :=
  if t.isFile path then
    if Files.extension? ((Files.components path).getLast?.getD "") = some fileExtension then
      some path
    else none
  else (withExtension? path).filter t.isFile

def skipMark (content : ByteArray) : ByteArray :=
  if content.data.toList.take 3 = [0xEF, 0xBB, 0xBF] then content.extract 3 content.size
  else content

def ofContent? (content : ByteArray) : Option (List (String × Raw)) :=
  (Toml.read (Text.ofBytesLossy (skipMark content))).map Raw.ofTomlEntries

/-- The layer of a settings file; without a file there is nothing in it, unless it is needed. -/
def fileLayer (t : Tree) (needed : Bool) (path : String) : Option (List (String × Raw)) :=
  match (findFile t path).bind t.find? with
  | some (.file content) => ofContent? content
  | _ => if needed then none else some []

/-! ## Environment -/

/-- What the names of variables begin with, in lower case. -/
def variableStart : List Char := "xsd_registry__".toList

/-- Turns double underscores into dots. -/
def dotted : List Char → List Char
  | '_' :: '_' :: rest => '.' :: dotted rest
  | c :: rest => c :: dotted rest
  | [] => []

/-- The key that a variable stands for, if it is meant for settings. -/
def variableKey? (name : String) : Option String :=
  let cs := (Text.lower name).toList
  if variableStart.isPrefixOf cs then
    some (String.ofList (dotted (cs.drop variableStart.length)))
  else none

/-- The value of a variable: a flag, an integer of 64 bits or another number, if it reads like one,
else a text. -/
def variableValue (value : String) : Raw :=
  match [("true", true), ("false", false)].lookup (Text.lower value) with
  | some b => .flag b
  | none =>
    match (Decimal.integer? value).filter Text.fitsWord with
    | some n => .integer n
    | none => match Decimal.float? value with
      | some x => .float x
      | none => .text value

def environmentLayer (environment : List (String × String)) : List (String × Raw) :=
  environment.filterMap fun v => (variableKey? v.1).map fun key => (key, variableValue v.2)

/-! ## Layers -/

structure Sources where
  tree : Tree
  userDirectory : Option String := none
  environment : List (String × String) := []

/-- The user's own settings file, if it is there. -/
def Sources.userFile (s : Sources) : List String :=
  match s.userDirectory with
  | none => []
  | some directory =>
    let path := Files.join (Files.join directory "xsd-registry") fileName
    if (s.tree.find? path).isSome then [path] else []

/-- All layers, the weakest first. -/
def Sources.layers (s : Sources) (named : Option String) :
    Option (List (List (String × Raw))) := do
  let optional ← (localFiles ++ s.userFile).mapM (fileLayer s.tree false)
  let needed ← named.toList.mapM (fileLayer s.tree true)
  some (optional ++ needed ++ [environmentLayer s.environment])

/-- The settings that hold, with a file that may be named on top of the usual ones. -/
def load (s : Sources) (named : Option String) : Except Error Settings :=
  match (s.layers named).bind fun ls => ofRaw? (Raw.layers ls) with
  | some settings => .ok settings
  | none => .error .badSettings

/-! ## Writing -/

def sections (s : Settings) : List Toml.Section :=
  [{ path := ["builtins"], entries := [("include_xsd", .flag s.builtins.includeXsd)] },
    { path := ["builtins", "extra"]
      entries := s.builtins.extra.entries.map fun e => (e.1, .texts e.2) },
    { path := ["merge"], entries := [("dedup_external_references", .flag s.merge.dedup)] },
    { path := ["resolve"], entries := [("strict", .flag s.resolve.strict)] },
    { path := ["loader"]
      entries := [("extension", .text s.loader.extension),
        ("skip_prefixes", .texts s.loader.skip)] },
    { path := ["output"], entries := [("format", .text s.output.format.name)] }]

def fileText (s : Settings) : String := Toml.write s.sections

/-- Writes a settings file. -/
def save (s : Settings) (t : Tree) (path : String) : Except Files.Fault Tree :=
  t.write path s.fileText

end Settings

end SchemaCatalog
