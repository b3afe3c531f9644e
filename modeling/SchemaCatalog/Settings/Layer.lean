import SchemaCatalog.Text.Case
import SchemaCatalog.Text.Digits
import SchemaCatalog.Toml.Value

/-!
# SchemaCatalog.Settings.Layer

Settings come in layers, each a table. A later layer is laid over the earlier ones: tables are
merged key by key, everything else is replaced. Keys count without regard to case; they are stored
in lower case.

A key of a layer's own table may be a path, such as `loader.skip_prefixes[0]`; a key that is no path
stands for itself.
-/

namespace SchemaCatalog.Settings

inductive Raw
  /-- The value of a place that nothing was stored at. -/
  | nothing
  | flag (flag : Bool)
  | integer (number : Int)
  | float (number : Decimal.Binary64)
  | text (text : String)
  | list (items : List Raw)
  | table (entries : List (String × Raw))
  deriving Repr, Inhabited

namespace Raw

mutual

/-- The value of a settings file as a value in a layer. -/
def ofToml : Toml.Value → Raw
  | .text t => text t
  | .integer n => integer n
  | .float x => float x
  | .flag b => flag b
  | .list items => list (ofTomlItems items)
  | .table entries => table (ofTomlEntries entries)

def ofTomlItems : List Toml.Value → List Raw
  | [] => []
  | v :: rest => ofToml v :: ofTomlItems rest

def ofTomlEntries : List (String × Toml.Value) → List (String × Raw)
  | [] => []
  | (key, v) :: rest => (key, ofToml v) :: ofTomlEntries rest

end

/-- The entries of a table; anything else has none. -/
def entries : Raw → List (String × Raw)
  | table entries => entries
  | _ => []

def items : Raw → List Raw
  | list items => items
  | _ => []

/-! ## Merging -/

mutual

/-- Lays a value over what a table has under a key. What is no table becomes one. -/
def merge (key : String) : Raw → Raw → Raw
  | table incoming, target =>
    let key := Text.lower key
    let existing := (Toml.find? target.entries key).getD (table [])
    table (Toml.store key (mergeAll incoming existing) target.entries)
  | value, target => table (Toml.store (Text.lower key) value target.entries)

def mergeAll : List (String × Raw) → Raw → Raw
  | [], target => target
  | (key, value) :: rest, target => mergeAll rest (merge key value target)

end

/-! ## Paths -/

/-- One step into a value. -/
inductive Step
  | child (key : String)
  /-- A place in a list; negative places count from its end. -/
  | place (index : Int)
  deriving DecidableEq, Repr

/-- The place that an index means in a list of some length. -/
def placeOf (index : Int) (length : Nat) : Nat :=
  if 0 ≤ index then index.toNat else length - index.natAbs

def pad (items : List Raw) (place : Nat) : List Raw :=
  items ++ List.replicate (place + 1 - items.length) nothing

/-- Changes what lies at the end of some steps. What stands in the way is replaced by a table or
list. -/
def changeAt (f : Raw → Raw) : List Step → Raw → Raw
  | [], v => f v
  | .child key :: rest, v =>
    table (Toml.store key (changeAt f rest ((Toml.find? v.entries key).getD nothing)) v.entries)
  | .place index :: rest, v =>
    let place := placeOf index v.items.length
    let items := pad v.items place
    list (items.set place (changeAt f rest (items.getD place nothing)))

def setAt (value : Raw) (steps : List Step) (root : Raw) : Raw :=
  match steps.getLast? with
  | none => root
  | some (.child key) => changeAt (merge key value) steps.dropLast root
  | some (.place _) => changeAt (fun _ => value) steps root

def isPathChar (c : Char) : Bool :=
  ('a' ≤ c && c ≤ 'z') || ('A' ≤ c && c ≤ 'Z') || Text.isDigit c || c = ' ' || c = '_' || c = '-'

/-- Reads the number of a place: an integer of 64 bits, with blanks around it. -/
def place? (cs : List Char) : Option Int :=
  let blank (c : Char) : Bool := c = ' ' || c = '\t'
  let cs := ((cs.dropWhile blank).reverse.dropWhile blank).reverse
  let (negative, digits) := match cs with
    | '-' :: rest => (true, rest)
    | cs => (false, cs)
  if digits.isEmpty || ! digits.all Text.isDigit then none
  else
    let n : Int := if negative then -(Text.decimal digits : Int) else Text.decimal digits
    if Text.fitsWord n then some n else none

/-- Reads the steps behind the first key of a path. Each round takes a character at least. -/
def steps? : Nat → List Char → Option (List Step)
  | _, [] => some []
  | fuel + 1, '.' :: cs =>
    let key := cs.takeWhile isPathChar
    if key.isEmpty then none
    else (steps? fuel (cs.dropWhile isPathChar)).map (.child (String.ofList key) :: ·)
  | fuel + 1, '[' :: cs =>
    match cs.dropWhile (· != ']') with
    | _ :: rest => do
      let index ← place? (cs.takeWhile (· != ']'))
      let more ← steps? fuel rest
      some (.place index :: more)
    | [] => none
  | _, _ => none

/-- The steps that a key stands for, if it is a path. -/
def path? (key : String) : Option (List Step) :=
  let cs := key.toList
  let first := cs.takeWhile isPathChar
  if first.isEmpty then none
  else (steps? cs.length (cs.dropWhile isPathChar)).map (.child (String.ofList first) :: ·)

/-! ## Layers -/

def setEntry (root : Raw) (entry : String × Raw) : Raw :=
  match path? entry.1 with
  | some steps => setAt entry.2 steps root
  | none => merge entry.1 entry.2 root

def lay (root : Raw) (layer : List (String × Raw)) : Raw := layer.foldl setEntry root

/-- All layers, the later ones over the earlier ones. The result is laid once more into an empty
table, which brings keys on the way of a path into lower case as well. -/
def layers (ls : List (List (String × Raw))) : Raw :=
  lay (table []) (ls.foldl lay (table [])).entries

end Raw

end SchemaCatalog.Settings
