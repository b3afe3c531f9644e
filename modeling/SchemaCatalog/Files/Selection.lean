import SchemaCatalog.Files.Tree

/-!
# SchemaCatalog.Files.Selection

Which files of a directory are taken: those with a certain extension, whose path relative to the
directory begins like one of the wanted texts, if there are any, and like none of the unwanted ones.
-/

namespace SchemaCatalog.Files

/-- Which files of a directory are taken. -/
structure Selection where
  extension : String := "json"
  skip : List String := []
  /-- Beginnings of relative paths that are wanted; none means all. -/
  want : List String := []
  deriving DecidableEq, Repr, Inhabited

namespace Selection

def accepts (s : Selection) (name relative : String) : Bool :=
  extension? name = some s.extension &&
    (s.want.isEmpty || s.want.any (beginsWith relative)) &&
    ! s.skip.any (beginsWith relative)

end Selection

/-- A file that a path leads to, or a file below it. -/
structure Found where
  path : String
  content : ByteArray

namespace Tree

/-- The selected files below a directory, in the order of their places. A path to a file stands for
that file alone, one that leads nowhere for no file. -/
def select (t : Tree) (s : Selection) (path : String) : List Found :=
  match t.resolve path with
  | .error _ => []
  | .ok place => match t.get? place with
    | none => []
    | some (.file content) =>
      if s.accepts ((components path).getLast?.getD "") "" then [{ path, content }] else []
    | some .directory =>
      (t.below place).filterMap fun (relative, content) =>
        if s.accepts (relative.getLast?.getD "") ("/".intercalate relative) then
          some { path := relative.foldl join path, content }
        else none

end Tree

end SchemaCatalog.Files
