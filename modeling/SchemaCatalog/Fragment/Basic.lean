import SchemaCatalog.Json.Reader

/-!
# SchemaCatalog.Fragment.Basic

A fragment is the JSON tree of one schema document, one entry per declaration. An entry may carry an
anchor; elsewhere in the document a link with that anchor stands for the same declaration, which is
how shared subtrees and cycles are written down.

The document itself is read straight from the text. An entry below it is read whole first: it is a
link if it consists of the member `link` alone, and a declaration otherwise.
-/

namespace SchemaCatalog

open Json (Reader)
open Json.Reader (RecordField)

namespace Fragment

/-- What an entry says about its declaration, children apart. -/
structure Head where
  tag : String
  name : Option String := none
  space : Option String := none
  anchor : Option String := none
  attributes : Table String String := ∅
  deriving DecidableEq, Inhabited

end Fragment

inductive Fragment
  /-- The declaration that carries the anchor. -/
  | link (anchor : String)
  | declaration (head : Fragment.Head) (children : List Fragment)
  deriving Inhabited

/-- A whole fragment: the entry of the document root. -/
structure Document where
  head : Fragment.Head
  children : List Fragment := []
  deriving Inhabited

namespace Fragment

/-! ## Reading -/

/-- A declaration whose fields may still be missing. -/
structure Partial where
  tag : Option String := none
  name : Option (Option String) := none
  space : Option (Option String) := none
  anchor : Option (Option String) := none
  attributes : Option (Table String String) := none
  children : Option (List Fragment) := none

/-- The fields of a declaration, its children apart. -/
def headFields : List (RecordField Partial) :=
  [.of "kind" Reader.text (·.tag) fun p v => { p with tag := some v },
    .of "name" (Reader.optional Reader.text) (·.name) fun p v => { p with name := some v },
    .of "namespace" (Reader.optional Reader.text) (·.space) fun p v => { p with space := some v },
    .of "anchor" (Reader.optional Reader.text) (·.anchor) fun p v => { p with anchor := some v },
    .of "attributes" (Reader.table Reader.text) (·.attributes)
      fun p v => { p with attributes := some v }]

/-- The head of a declaration, once its kind is there. -/
def Partial.head? (p : Partial) : Option Head :=
  p.tag.map fun tag =>
    { tag
      name := p.name.getD none
      space := p.space.getD none
      anchor := p.anchor.getD none
      attributes := p.attributes.getD ∅ }

def Partial.finish (p : Partial) : Option Fragment :=
  p.head?.map fun head => .declaration head (p.children.getD [])

/-- Stores a member other than the children. An unknown member is passed over. -/
def Partial.set? (p : Partial) (key : String) (value : Json) : Option Partial :=
  match headFields.find? (·.name == key) with
  | some field => if field.isSet p then none else (field.read p value.draft).toOption
  | none => some p

/-- Stores items in the fields other than the children, in order. -/
def Partial.fill? (items : List Json) : Option Partial :=
  (Reader.positions .closed headFields {} (items.map (·.draft))).toOption

mutual

def ofJson? : Json → Option Fragment
  | .object [("link", .string anchor)] => some (.link anchor)
  | .array [.string anchor] => some (.link anchor)
  | .object members => (ofMembers? {} members).bind (·.finish)
  | .array [tag, name, space, anchor, attributes, .array children] =>
    (Partial.fill? [tag, name, space, anchor, attributes]).bind fun p =>
      (ofItems? children).bind fun children => { p with children := some children }.finish
  | .array items => (Partial.fill? items).bind (·.finish)
  | _ => none

def ofMembers? (p : Partial) : List (String × Json) → Option Partial
  | [] => some p
  | ("children", .array children) :: rest =>
    if p.children.isSome then none
    else (ofItems? children).bind fun children =>
      ofMembers? { p with children := some children } rest
  | ("children", _) :: _ => none
  | (key, value) :: rest => (p.set? key value).bind fun p => ofMembers? p rest

def ofItems? : List Json → Option (List Fragment)
  | [] => some []
  | item :: rest => (ofJson? item).bind fun entry => (ofItems? rest).map (entry :: ·)

end

/-- How many arrays and objects an entry below the document may have inside one another, itself
included. -/
def room : Nat := 125

def entryReader : Reader Fragment := fun d =>
  match d.settle room with
  | .error f => .error f
  | .ok value => Reader.complete (ofJson? value)

end Fragment

namespace Document

open Fragment (Partial)

def fields : List (RecordField Partial) :=
  Fragment.headFields ++
    [.of "children" (Reader.list Fragment.entryReader) (·.children)
      fun p v => { p with children := some v }]

def finish (p : Partial) : Option Document :=
  p.head?.map fun head => { head, children := p.children.getD [] }

def reader : Reader Document := Reader.record fields {} finish

def ofText (text : String) : Except Json.Fault Document := Json.decode reader text

end Document

end SchemaCatalog
