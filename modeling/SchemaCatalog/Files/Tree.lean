import SchemaCatalog.Files.Fault
import SchemaCatalog.Files.Path
import SchemaCatalog.Table

/-!
# SchemaCatalog.Files.Tree

The files and directories that a program sees. Every one of them has a place, the list of names that
lead to it from the working directory; an absolute path leads to a place that begins with `/`.

Places are ordered by their names, so the files below a directory are listed as a depth-first walk
meets them, the entries of each directory by name (`Tree.below`).
-/

namespace SchemaCatalog.Files

/-- The names that lead to a file or directory. -/
abbrev Place := List String

inductive Node
  | file (content : ByteArray)
  | directory

def Node.isDirectory : Node → Bool
  | directory => true
  | file _ => false

/-- Files and directories by place. The working directory and those above it are always there. -/
structure Tree where
  nodes : Table Place Node := ∅

namespace Tree

def get? (t : Tree) (place : Place) : Option Node :=
  if place.all (· = "..") then some .directory else t.nodes.get? place

def put (t : Tree) (place : Place) (node : Node) : Tree := ⟨t.nodes.insert place node⟩

/-- Puts a file at a place, and the directories that lead to it. -/
def plant (t : Tree) (place : Place) (node : Node) : Tree :=
  ((List.range place.length).foldl (fun t n =>
    if n = 0 then t else t.put (place.take n) .directory) t).put place node

/-! ## Finding the place of a path -/

/-- The longest name, in bytes. -/
def maxName : Nat := 255

def maxPath : Nat := 4095

/-- The place above a directory. Above the working directory the way up becomes part of the place;
there is nothing above the root. -/
def above (place : Place) : Place :=
  if place = ["/"] then place
  else match place.getLast? with
    | none | some ".." => place ++ [".."]
    | some _ => place.dropLast

def step (t : Tree) (place : Place) (name : String) : Except Fault Place :=
  match t.get? place with
  | none => .error .absent
  | some (.file _) => .error .notADirectory
  | some .directory =>
    if name = "" || name = "." then .ok place
    else if maxName < name.utf8ByteSize then .error .nameTooLong
    else
      let next := if name = ".." then above place else place ++ [name]
      match t.get? next with
      | none => .error .absent
      | some _ => .ok next

/-- Takes steps from a place, up to the first that fails. -/
def follow (t : Tree) (place : Place) : List String → Except Fault Place
  | [] => .ok place
  | name :: rest => match t.step place name with
    | .error f => .error f
    | .ok next => follow t next rest

def pathFault? (path : String) : Option Fault :=
  if path.toList.contains '\x00' then some .nulInPath
  else if path = "" then some .absent
  else if maxPath < path.utf8ByteSize then some .nameTooLong
  else none

def origin (path : String) : Place := if beginsWith path "/" then ["/"] else []

/-- The place that a path leads to. -/
def resolve (t : Tree) (path : String) : Except Fault Place :=
  match pathFault? path with
  | some f => .error f
  | none => t.follow (origin path) (components path)

/-! ## Reading -/

def find? (t : Tree) (path : String) : Option Node :=
  match t.resolve path with
  | .ok place => t.get? place
  | .error _ => none

def isDirectory (t : Tree) (path : String) : Bool := (t.find? path).any (·.isDirectory)

def isFile (t : Tree) (path : String) : Bool :=
  (t.find? path).any (! ·.isDirectory)

def decode (content : ByteArray) : Except Fault String :=
  match String.fromUTF8? content with
  | some text => .ok text
  | none => .error .notText

def read (t : Tree) (path : String) : Except Fault String :=
  match t.resolve path with
  | .error f => .error f
  | .ok place => match t.get? place with
    | some (.file content) => decode content
    | some .directory => .error .isADirectory
    | none => .error .absent

/-- Does a name stand for an entry of a directory? The way up and the root are no entries. -/
def isEntry (name : String) : Bool := name != ".." && name != "/"

def leadsDown (names : Place) : Bool := ! names.isEmpty && names.all isEntry

/-- The files below a directory, at any depth, with the names that lead there from it. -/
def below (t : Tree) (place : Place) : List (Place × ByteArray) :=
  t.nodes.entries.filterMap fun
    | (p, .file content) =>
      let names := p.drop place.length
      if place.isPrefixOf p && leadsDown names then some (names, content) else none
    | (_, .directory) => none

/-! ## Writing -/

/-- The place of a file that can be written under a path. The file itself need not be there. -/
def writable (t : Tree) (path : String) : Except Fault Place :=
  match pathFault? path with
  | some f => .error f
  | none =>
    let backwards := (components path).reverse
    match backwards.dropWhile (· = "") with
    | [] => .error .isADirectory
    | last :: parents => match t.follow (origin path) parents.reverse with
      | .error f => .error f
      | .ok parent =>
        if last = "." || last = ".." then
          match t.step parent last with
          | .error f => .error f
          | .ok _ => .error .isADirectory
        else match t.get? parent with
          | none => .error .absent
          | some (.file _) => .error .notADirectory
          | some .directory =>
            let place := parent ++ [last]
            if maxName < last.utf8ByteSize then .error .nameTooLong
            else if backwards.head? = some "" || (t.get? place).any (·.isDirectory) then
              .error .isADirectory
            else .ok place

/-- Writes a text to the file that a path leads to. -/
def write (t : Tree) (path text : String) : Except Fault Tree :=
  (t.writable path).map fun place => t.put place (.file text.toUTF8)

end Tree

end SchemaCatalog.Files
