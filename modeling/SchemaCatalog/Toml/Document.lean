import SchemaCatalog.Toml.Scan

/-!
# SchemaCatalog.Toml.Document

Settings files as tables. A file is a list of lines: a line with a key and a value stores the value
in the current table, a line with a key in brackets makes a table the current one, and with double
brackets a new element of a list of tables.

While a file is read, each table remembers where it comes from, because that decides what may still
be added to it: a table made by a header is not extended through dotted keys, and one made by dotted
keys gets no header of its own.
-/

namespace SchemaCatalog.Toml

/-! ## Tables under construction -/

/-- Where a table comes from. -/
inductive Origin
  /-- It has a header of its own. -/
  | header
  /-- It is the way to a table with a header. -/
  | implied
  /-- It is the way to a value under a dotted key. -/
  | dotted
  deriving DecidableEq, Repr

/-- What is stored under a key so far. -/
inductive Item
  | value (value : Value)
  | table (origin : Origin) (entries : List (String × Item))
  | tables (elements : List (List (String × Item)))
  deriving Inhabited

abbrev Entries := List (String × Item)

/-- A change of a table, which may be refused. -/
abbrev Change := Origin → Entries → Option (Origin × Entries)

/-- Changes the table at the end of a path. Missing tables on the way are made with the origin
`fresh`; a list of tables stands for its last element. On the way of a dotted key no table with a
header may stand. -/
def changeAt (fresh : Origin) (change : Change) : List String → Change
  | [], origin, entries => change origin entries
  | key :: path, origin, entries =>
    match find? entries key with
    | none => do
      let (o, es) ← changeAt fresh change path fresh []
      some (origin, store key (.table o es) entries)
    | some (.table o es) =>
      if fresh = .dotted && o = .header then none
      else do
        let (o, es) ← changeAt fresh change path o es
        some (origin, store key (.table o es) entries)
    | some (.tables elements) => do
      let (_, es) ← changeAt fresh change path .header (elements.getLast?.getD [])
      some (origin, store key (.tables (elements.dropLast ++ [es])) entries)
    | some (.value _) => none

/-- Stores a value under a new key. Behind a dotted key, the table has to be made by dotted keys,
and without one it must not. -/
def addValue (isDotted : Bool) (key : String) (v : Value) : Change := fun origin entries =>
  if (origin = .dotted) = isDotted && (find? entries key).isNone then
    some (origin, entries ++ [(key, .value v)])
  else none

def addPair (key : List String) (v : Value) : Change :=
  changeAt .dotted (addValue (1 < key.length) (key.getLast?.getD "") v) key.dropLast

/-- Makes the table of a header, or turns a table that was only on the way into it. -/
def addTable (key : String) : Change := fun origin entries =>
  match find? entries key with
  | none => some (origin, entries ++ [(key, .table .header [])])
  | some (.table .implied es) => some (origin, store key (.table .header es) entries)
  | some _ => none

def addElement (key : String) : Change := fun origin entries =>
  match find? entries key with
  | none => some (origin, entries ++ [(key, .tables [[]])])
  | some (.tables elements) => some (origin, store key (.tables (elements ++ [[]])) entries)
  | some _ => none

mutual

def Item.finish : Item → Value
  | .value v => v
  | .table _ entries => .table (finishEntries entries)
  | .tables elements => .list (finishElements elements)

def finishEntries : List (String × Item) → List (String × Value)
  | [] => []
  | (key, item) :: rest => (key, item.finish) :: finishEntries rest

def finishElements : List (List (String × Item)) → List Value
  | [] => []
  | entries :: rest => .table (finishEntries entries) :: finishElements rest

end

/-! ## Values -/

/-- Takes the rest of a list. Each round takes a character at least. -/
def takeItems (element : Scan Value) : Nat → List Value → Scan (List Value)
  | 0, _, _ => none
  | fuel + 1, done, cs => do
    match ← skipGaps? false cs with
    | ']' :: rest => some (done.reverse, rest)
    | cs =>
      let (v, cs) ← element cs
      match ← skipGaps? false cs with
      | ',' :: rest => takeItems element fuel (v :: done) rest
      | ']' :: rest => some ((v :: done).reverse, rest)
      | _ => none

def takePair (element : Scan Value) : Scan (List String × Value) := fun cs => do
  let (key, cs) ← takeKey cs
  match cs with
  | '=' :: rest =>
    let (v, cs) ← element (skipBlanks rest)
    some ((key, v), cs)
  | _ => none

/-- Takes the rest of a table in braces, at a key. Each round takes a character at least. -/
def takePairs (element : Scan Value) : Nat → Entries → Scan Entries
  | 0, _, _ => none
  | fuel + 1, entries, cs => do
    let ((key, v), cs) ← takePair element cs
    let (_, entries) ← addPair key v .header entries
    match skipBlanks cs with
    | ',' :: rest => takePairs element fuel entries rest
    | '\x7d' :: rest => some (entries, rest)
    | _ => none

def takeBraces (element : Scan Value) : Scan Entries := fun cs =>
  match skipBlanks cs with
  | '\x7d' :: rest => some ([], rest)
  | cs => takePairs element cs.length [] cs

/-- Takes a value with at most `room` lists and tables inside one another. -/
def takeValue : Nat → Scan Value
  | 0, cs => takeScalar cs
  | room + 1, cs => match cs with
    | '[' :: rest =>
      (takeItems (takeValue room) (rest.length + 1) [] rest).map fun r => (.list r.1, r.2)
    | '\x7b' :: rest =>
      (takeBraces (takeValue room) rest).map fun r => (.table (finishEntries r.1), r.2)
    | cs => takeScalar cs

/-- How many lists and tables may stand inside one another in a value. -/
def maxDepth : Nat := 79

/-! ## Lines -/

inductive Line
  | empty
  | pair (key : List String) (value : Value)
  | header (key : List String)
  | element (key : List String)

def takeContent : Scan Line
  | '[' :: '[' :: rest => do
    match ← takeKey rest with
    | (key, ']' :: ']' :: cs) => some (.element key, cs)
    | _ => none
  | '[' :: rest => do
    match ← takeKey rest with
    | (key, ']' :: cs) => some (.header key, cs)
    | _ => none
  | cs => do
    let ((key, v), cs) ← takePair (takeValue maxDepth) cs
    some (.pair key v, cs)

def takeFileLine : Scan Line := fun cs => do
  match lineEnd? cs with
  | some rest => some (.empty, rest)
  | none =>
    let (line, cs) ← takeContent (skipBlanks cs)
    let rest ← lineEnd? cs
    some (line, rest)

/-- Takes the lines of a file. Each round takes a character at least. -/
def takeLines : Nat → List Char → Option (List Line)
  | _, [] => some []
  | 0, _ => none
  | fuel + 1, cs => do
    let (line, rest) ← takeFileLine cs
    let lines ← takeLines fuel rest
    some (line :: lines)

/-- A file up to some line: the table of the whole file, and the path of the current table. -/
structure Reading where
  root : Entries := []
  current : List String := []

def Reading.change (r : Reading) (current : List String) (c : Change) : Option Reading :=
  (c .header r.root).map fun (_, root) => { root, current }

def Reading.step (r : Reading) : Line → Option Reading
  | .empty => some r
  | .pair key v => r.change r.current (changeAt .implied (addPair key v) r.current)
  | .header key =>
    r.change key (changeAt .implied (addTable (key.getLast?.getD "")) key.dropLast)
  | .element key =>
    r.change key (changeAt .implied (addElement (key.getLast?.getD "")) key.dropLast)

def ofLines (lines : List Line) : Option (List (String × Value)) :=
  (lines.foldlM Reading.step {}).map fun r => finishEntries r.root

/-- The text behind a byte order mark, if one stands there. -/
def skipMark : List Char → List Char
  | '\uFEFF' :: rest => rest
  | cs => cs

/-- Reads the table that a file describes. -/
def read (text : String) : Option (List (String × Value)) :=
  let cs := skipMark text.toList
  (takeLines cs.length cs).bind ofLines

end SchemaCatalog.Toml
