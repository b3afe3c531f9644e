import SchemaCatalog.Declaration.Arena
import SchemaCatalog.Fragment.Basic

/-!
# SchemaCatalog.Fragment.Load

Loading a fragment into the arena. The declarations are added in pre-order first, without children;
once all anchors are known, the children are set, those of the inner declarations before those of
the outer ones. A defect stops the work where it is met; the declarations added until then stay.
-/

namespace SchemaCatalog

namespace Fragment

/-- A child that is still to be set: an added declaration, or an anchor to look up. -/
inductive Slot
  | node (id : NodeId)
  | link (anchor : String)
  deriving DecidableEq, Repr

structure Loading where
  arena : Arena
  anchors : Table String NodeId := ∅
  /-- The declarations whose children are still to be set, the last one first. -/
  waiting : List (NodeId × List Slot) := []

/-- The declaration that an entry describes, in a document of the namespace `space`. Without a name
of its own it is named by its attribute `name`. -/
def Head.declaration (head : Head) (space : String) : Declaration where
  kind := .ofTag head.tag
  name := head.name <|> head.attributes.get? "name"
  space := head.space.getD space
  attributes := head.attributes

namespace Loading

def alloc (l : Loading) (space : String) (head : Head) : NodeId × Loading :=
  let (id, arena) := l.arena.alloc (head.declaration space)
  (id, { l with arena })

/-- Gives a declaration an anchor, if the entry has one. -/
def name (l : Loading) (id : NodeId) (head : Head) : Loading × Option FragmentDefect :=
  match head.anchor with
  | none => (l, none)
  | some anchor =>
    if l.anchors.contains anchor then (l, some (.duplicateAnchor anchor))
    else ({ l with anchors := l.anchors.insert anchor id }, none)

def wait (l : Loading) (id : NodeId) (slots : List Slot) : Loading :=
  { l with waiting := (id, slots) :: l.waiting }

mutual

/-- Adds an entry and everything below it. -/
def add (space : String) (l : Loading) : Fragment → Loading × Except FragmentDefect Slot
  | .link anchor => (l, .ok (.link anchor))
  | .declaration head children =>
    let (id, l) := l.alloc space head
    match l.name id head with
    | (l, some defect) => (l, .error defect)
    | (l, none) => match addAll space l children with
      | (l, .error defect) => (l, .error defect)
      | (l, .ok slots) => (l.wait id slots, .ok (.node id))

def addAll (space : String) (l : Loading) :
    List Fragment → Loading × Except FragmentDefect (List Slot)
  | [] => (l, .ok [])
  | entry :: rest => match add space l entry with
    | (l, .error defect) => (l, .error defect)
    | (l, .ok slot) =>
      let (l, slots) := addAll space l rest
      (l, slots.map (slot :: ·))

end

def settle (anchors : Table String NodeId) : List Slot → Except FragmentDefect (List NodeId)
  | [] => .ok []
  | .node id :: rest => (settle anchors rest).map (id :: ·)
  | .link anchor :: rest => match anchors.get? anchor with
    | some id => (settle anchors rest).map (id :: ·)
    | none => .error (.unknownAnchor anchor)

/-- Sets the children of declarations in order. -/
def connect (anchors : Table String NodeId) (arena : Arena) :
    List (NodeId × List Slot) → Arena × Option FragmentDefect
  | [] => (arena, none)
  | (id, slots) :: rest => match settle anchors slots with
    | .error defect => (arena, some defect)
    | .ok children =>
      connect anchors (arena.modify id fun d => { d with children }) rest

end Loading

end Fragment

namespace Document

/-- The target namespace of a document: its own, else its attribute of that name, else none. -/
def space (d : Document) : String :=
  (d.head.space <|> d.head.attributes.get? "targetNamespace").getD ""

/-- Adds all declarations of a document and gives the id of its root. -/
def load (d : Document) (arena : Arena) : Arena × Except FragmentDefect NodeId :=
  let root : NodeId := ⟨arena.size⟩
  match Fragment.Loading.add d.space { arena } (.declaration d.head d.children) with
  | (l, .error defect) => (l.arena, .error defect)
  | (l, .ok _) => match Fragment.Loading.connect l.anchors l.arena l.waiting.reverse with
    | (arena, some defect) => (arena, .error defect)
    | (arena, none) => (arena, .ok root)

end Document

/-- Loads the text of a fragment and gives the id of the document root. -/
def Arena.load (arena : Arena) (text : String) : Arena × Except Error NodeId :=
  match Document.ofText text with
  | .error fault => (arena, .error (.notJson fault))
  | .ok d => match d.load arena with
    | (arena, .error defect) => (arena, .error (.invalidFragment defect))
    | (arena, .ok root) => (arena, .ok root)

end SchemaCatalog
