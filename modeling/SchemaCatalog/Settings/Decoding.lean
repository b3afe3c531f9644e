import SchemaCatalog.Decimal.Shortest
import SchemaCatalog.Settings.Basic
import SchemaCatalog.Settings.Layer

/-!
# SchemaCatalog.Settings.Decoding

What the values of merged layers mean. Scalars are taken for what is wanted where that makes sense:
numbers and words for flags, flags and numbers for texts. A section may also stand as a list of its
values in order. Unknown keys are passed over.
-/

namespace SchemaCatalog.Settings

namespace Raw

def flagWords : List (String × Bool) :=
  [("1", true), ("true", true), ("on", true), ("yes", true), ("0", false), ("false", false),
    ("off", false), ("no", false)]

/-- The flag that a value stands for. -/
def flag? : Raw → Option Bool
  | flag b => some b
  | integer n => some (n != 0)
  | float x => some x.isNonzero
  | text s => flagWords.lookup (Text.lower s)
  | nothing | list _ | table _ => none

def text? : Raw → Option String
  | text s => some s
  | flag true => some "true"
  | flag false => some "false"
  | integer n => some (toString n)
  | float x => some x.text
  | nothing | list _ | table _ => none

def texts? : Raw → Option (List String)
  | list items => items.mapM text?
  | _ => none

def lists? : Raw → Option (Table String (List String))
  | table entries =>
    (entries.mapM fun (e : String × Raw) => (texts? e.2).map fun l => (e.1, l)).map Table.ofList
  | _ => none

/-- The value with some name, which is written in either case or as the only key of a table. -/
def named? {α : Type} (byName : List (String × α)) : Raw → Option α
  | text s => byName.lookup (Text.lower s)
  | table [(key, _)] => byName.lookup (Text.lower key)
  | _ => none

/-! ## Sections -/

/-- One value of a section: its key, and what it changes. -/
structure Slot (σ : Type) where
  key : String
  read : Raw → σ → Option σ

/-- The slot of a value that is read in some way and then stored. -/
def Slot.of {σ α : Type} (key : String) (read : Raw → Option α) (put : σ → α → σ) : Slot σ where
  key := key
  read v s := (read v).map (put s)

def readEntries {σ : Type} (slots : List (Slot σ)) (s : σ) : List (String × Raw) → Option σ
  | [] => some s
  | (key, v) :: rest => match slots.find? (·.key == key) with
    | some slot => (slot.read v s).bind fun s => readEntries slots s rest
    | none => readEntries slots s rest

/-- Reads the values of a section in the order of its slots. -/
def readItems {σ : Type} : List (Slot σ) → σ → List Raw → Option σ
  | slot :: slots, s, v :: rest => (slot.read v s).bind fun s => readItems slots s rest
  | _, s, _ => some s

/-- Reads a section over its defaults. -/
def readSection {σ : Type} (slots : List (Slot σ)) (defaults : σ) : Raw → Option σ
  | table entries => readEntries slots defaults entries
  | list items => readItems slots defaults items
  | _ => none

end Raw

open Raw (Slot readSection flag? text? texts? lists? named?)

def BuiltinSection.ofRaw? : Raw → Option BuiltinSection :=
  readSection
    [.of "include_xsd" flag? fun s v => { s with includeXsd := v },
      .of "extra" lists? fun s v => { s with extra := v }]
    {}

def MergeSection.ofRaw? : Raw → Option MergeSection :=
  readSection [.of "dedup_external_references" flag? fun s v => { s with dedup := v }] {}

def ResolveSection.ofRaw? : Raw → Option ResolveSection :=
  readSection [.of "strict" flag? fun s v => { s with strict := v }] {}

def LoaderSection.ofRaw? : Raw → Option LoaderSection :=
  readSection
    [.of "extension" text? fun s v => { s with extension := v },
      .of "skip_prefixes" texts? fun s v => { s with skip := v }]
    {}

def OutputSection.ofRaw? : Raw → Option OutputSection :=
  readSection [.of "format" (named? Format.byName) fun s v => { s with format := v }] {}

/-- Reads settings from merged layers. -/
def ofRaw? : Raw → Option Settings :=
  readSection
    [.of "builtins" BuiltinSection.ofRaw? fun s v => { s with builtins := v },
      .of "merge" MergeSection.ofRaw? fun s v => { s with merge := v },
      .of "resolve" ResolveSection.ofRaw? fun s v => { s with resolve := v },
      .of "loader" LoaderSection.ofRaw? fun s v => { s with loader := v },
      .of "output" OutputSection.ofRaw? fun s v => { s with output := v }]
    {}

end SchemaCatalog.Settings
