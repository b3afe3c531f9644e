import SchemaCatalog.Digest
import SchemaCatalog.Files.Selection
import SchemaCatalog.Fragment.Load

/-!
# SchemaCatalog.Fragment.Bundle

Loading fragment files, given one by one or by the directories that hold them. The documents of one
run make a bundle; its hash covers the text of every file, where a directory counts with the digest
of its texts. The first file that cannot be read or loaded ends the work; what was loaded before
stays in the arena.
-/

namespace SchemaCatalog

open Files (Tree Selection Found)

/-- A document that was loaded, with the path and the text of its file. -/
structure LoadedDocument where
  path : String
  text : String
  root : NodeId
  deriving DecidableEq, Repr, Inhabited

/-- Why a file did not become a document. -/
inductive LoadFailure
  | unreadable (path : String) (fault : Files.Fault)
  | unusable (path : String) (cause : Error)
  deriving DecidableEq, Repr

namespace LoadFailure

def message : LoadFailure → String
  | unreadable path _ => s!"Failed to read {path}"
  | unusable path _ => s!"Failed to load fragment {path}"

def cause : LoadFailure → Error
  | unreadable _ fault => .unreadable fault
  | unusable _ cause => cause

end LoadFailure

/-- The documents that came from one path. -/
inductive Piece
  | file (document : LoadedDocument)
  | directory (documents : List LoadedDocument)
  deriving DecidableEq, Repr, Inhabited

def Piece.documents : Piece → List LoadedDocument
  | file d => [d]
  | directory ds => ds

/-- Documents that were loaded together. -/
structure Bundle where
  pieces : List Piece := []
  deriving DecidableEq, Repr, Inhabited

namespace Bundle

/-- All documents, in the order of loading. -/
def documents (b : Bundle) : List LoadedDocument := b.pieces.flatMap (·.documents)

def roots (b : Bundle) : List NodeId := b.documents.map (·.root)

/-- What a piece adds to the text that is hashed. -/
def imprint (digest : String → String) : Piece → String
  | .file d => d.text
  | .directory ds => digest (String.join (ds.map (·.text)))

def hashWith (digest : String → String) (b : Bundle) : String :=
  digest (String.join (b.pieces.map (imprint digest)))

def hash (b : Bundle) : String := b.hashWith Digest.hex

end Bundle

namespace Arena

def loadText (arena : Arena) (path : String) (text : Except Files.Fault String) :
    Arena × Except LoadFailure LoadedDocument :=
  match text with
  | .error fault => (arena, .error (.unreadable path fault))
  | .ok text => match arena.load text with
    | (arena, .error cause) => (arena, .error (.unusable path cause))
    | (arena, .ok root) => (arena, .ok { path, text, root })

def loadFile (arena : Arena) (tree : Tree) (path : String) :
    Arena × Except LoadFailure LoadedDocument :=
  arena.loadText path (tree.read path)

def loadFound (arena : Arena) : List Found → Arena × Except LoadFailure (List LoadedDocument)
  | [] => (arena, .ok [])
  | f :: rest => match arena.loadText f.path (Tree.decode f.content) with
    | (arena, .error failure) => (arena, .error failure)
    | (arena, .ok d) =>
      let (arena, ds) := arena.loadFound rest
      (arena, ds.map (d :: ·))

def loadDirectory (arena : Arena) (tree : Tree) (s : Selection) (path : String) :
    Arena × Except LoadFailure (List LoadedDocument) :=
  arena.loadFound (tree.select s path)

/-- Loads what a path leads to: the selected files below a directory, or a file, selected or not. -/
def loadPath (arena : Arena) (tree : Tree) (s : Selection) (path : String) :
    Arena × Except LoadFailure Piece :=
  if tree.isDirectory path then
    let (arena, ds) := arena.loadDirectory tree s path
    (arena, ds.map .directory)
  else
    let (arena, d) := arena.loadFile tree path
    (arena, d.map .file)

def loadPieces (arena : Arena) (tree : Tree) (s : Selection) :
    List String → Arena × Except LoadFailure (List Piece)
  | [] => (arena, .ok [])
  | path :: rest => match arena.loadPath tree s path with
    | (arena, .error failure) => (arena, .error failure)
    | (arena, .ok p) =>
      let (arena, ps) := arena.loadPieces tree s rest
      (arena, ps.map (p :: ·))

/-- Loads paths in order into one bundle. -/
def loadPaths (arena : Arena) (tree : Tree) (s : Selection) (paths : List String) :
    Arena × Except LoadFailure Bundle :=
  let (arena, ps) := arena.loadPieces tree s paths
  (arena, ps.map Bundle.mk)

end Arena

end SchemaCatalog
