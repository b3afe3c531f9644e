/-!
# SchemaCatalog.Files.Path

Paths as texts: their components, the extension of a name, and how a name is appended.
-/

namespace SchemaCatalog.Files

/-- The parts of a text between slashes, the first one apart from the others. -/
def splitAtSlashes : List Char → List Char × List (List Char)
  | [] => ([], [])
  | c :: rest =>
    let (part, parts) := splitAtSlashes rest
    if c = '/' then ([], part :: parts) else (c :: part, parts)

/-- The parts of a path between slashes; two slashes side by side have an empty part between
them. -/
def components (path : String) : List String :=
  let (part, parts) := splitAtSlashes path.toList
  (part :: parts).map String.ofList

/-- The part of a name behind its last dot, unless that dot is the first character. -/
def extension? (name : String) : Option String :=
  let back := name.toList.reverse.takeWhile (· != '.')
  match name.toList.reverse.dropWhile (· != '.') with
  | [] | ['.'] => none
  | _ :: _ => some (String.ofList back.reverse)

def join (directory name : String) : String :=
  match directory.toList.getLast? with
  | none | some '/' => directory ++ name
  | some _ => directory ++ "/" ++ name

def beginsWith (path start : String) : Bool := start.toList.isPrefixOf path.toList

end SchemaCatalog.Files
