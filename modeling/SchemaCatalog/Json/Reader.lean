import SchemaCatalog.Json.Draft
import SchemaCatalog.Table

/-!
# SchemaCatalog.Json.Reader

Readers of one shape each. A reader goes through a draft from left to right and gives the value or
the first thing that is wrong, be it a fault of the text or a mismatch of the shape.

A record stands as an object with its fields in any order, or as an array of its fields in their own
order. A choice stands as its name, or as an object whose only member is that name.
-/

namespace SchemaCatalog.Json

/-- What a draft of some shape says, or the first thing wrong with it. -/
abbrev Reader (α : Type) := Draft → Except Fault α

namespace Reader

variable {α β σ : Type}

/-- A value behind which an array or object has to end. -/
def close (ending : Ending) (a : α) : Except Fault α :=
  match ending.fault? with
  | none => .ok a
  | some f => .error f

def text : Reader String
  | .string (.ok s) _ => .ok s
  | d => .error d.otherwise

def flag : Reader Bool
  | .bool b => .ok b
  | d => .error d.otherwise

def natural : Reader Nat
  | .number n .complete =>
    match n.natural? with
    | some k => if k < UInt64.size then .ok k else .error (Draft.number n .complete).otherwise
    | none => .error (Draft.number n .complete).otherwise
  | d => .error d.otherwise

/-- Reads what another reader reads, or `null`. -/
def optional (r : Reader α) : Reader (Option α)
  | .null => .ok none
  | d => (r d).map some

/-- Reads items, up to the first that is wrong. -/
def all (r : Reader α) : List Draft → Except Fault (List α)
  | [] => .ok []
  | d :: rest => match r d with
    | .error f => .error f
    | .ok a => (all r rest).map (a :: ·)

def list (r : Reader α) : Reader (List α)
  | .array items ending => match all r items with
    | .error f => .error f
    | .ok values => close ending values
  | d => .error d.otherwise

def entries (r : Reader α) (t : Table String α) :
    List (Except Fault String × Draft) → Except Fault (Table String α)
  | [] => .ok t
  | (.error f, _) :: _ => .error f
  | (.ok key, d) :: rest => match r d with
    | .error f => .error f
    | .ok a => entries r (t.insert key a) rest

def table (r : Reader α) : Reader (Table String α)
  | .object members ending => match entries r ∅ members with
    | .error f => .error f
    | .ok t => close ending t
  | d => .error d.otherwise

/-! ## Choices -/

/-- One of the values that a choice has a name for. -/
inductive Variant (α : Type)
  | plain (value : α)
  /-- A family of values, one for each text that is given along with the name. -/
  | holding (value : String → α)

def Variant.read : Variant α → Reader α
  | plain a, .null => .ok a
  | plain _, d => .error d.otherwise
  | holding f, d => (text d).map f

def choice (find : String → Option (Variant α)) : Reader α
  | .string (.ok name) _ => match find name with
    | some (.plain a) => .ok a
    | _ => .error .mismatch
  | .string (.error f) _ => .error f
  | .object ((.error f, _) :: _) _ => .error f
  | .object ((.ok name, d) :: more) ending => match find name with
    | none => .error .mismatch
    | some v => match v.read d with
      | .error f => .error f
      | .ok a => match more, ending with
        | [], .closed => .ok a
        | [], .broken f => .error f
        | _, _ => .error .malformed
  | .object [] (.broken f) => .error f
  | .object [] (.notAKey f) => .error f
  | .absent f => .error f
  | _ => .error .malformed

def named (byName : List (String × α)) : Reader α :=
  choice fun name => (byName.lookup name).map .plain

/-! ## Records -/

/-- A field of a record that is read into `σ`, a record whose fields may still be missing. -/
structure RecordField (σ : Type) where
  name : String
  isSet : σ → Bool
  read : σ → Reader σ

def RecordField.of (name : String) (r : Reader α) (get : σ → Option α) (put : σ → α → σ) :
    RecordField σ where
  name := name
  isSet s := (get s).isSome
  read s d := (r d).map (put s)

/-- Reads members into a record. A known field may not come twice, an unknown one is passed over. -/
def members (fields : List (RecordField σ)) (s : σ) :
    List (Except Fault String × Draft) → Except Fault σ
  | [] => .ok s
  | (.error f, _) :: _ => .error f
  | (.ok key, d) :: rest => match fields.find? (·.name == key) with
    | some field =>
      if field.isSet s then .error .mismatch
      else match field.read s d with
        | .error f => .error f
        | .ok s => members fields s rest
    | none => match d.fault? with
      | some f => .error f
      | none => members fields s rest

/-- Reads items into the fields of a record in order. Fields at the end may be missing; more items
than fields are malformed. -/
def positions (ending : Ending) : List (RecordField σ) → σ → List Draft → Except Fault σ
  | [], s, [] => match ending with
    | .closed => .ok s
    | .broken f => .error f
    | _ => .error .malformed
  | [], _, _ :: _ => .error .malformed
  | _ :: _, s, [] => close ending s
  | field :: fields, s, d :: rest => match field.read s d with
    | .error f => .error f
    | .ok s => positions ending fields s rest

def complete : Option α → Except Fault α
  | some a => .ok a
  | none => .error .mismatch

def record (fields : List (RecordField σ)) (start : σ) (finish : σ → Option α) : Reader α
  | .object ms ending => match members fields start ms with
    | .error f => .error f
    | .ok s => match ending.fault? with
      | some f => .error f
      | none => complete (finish s)
  | .array items ending => match positions ending fields start items with
    | .error f => .error f
    | .ok s => complete (finish s)
  | d => .error d.otherwise

/-- A field of a record that has a value from the start. The record is read along with the names of
the fields that were met. -/
def RecordField.optional (name : String) (r : Reader α) (put : σ → α → σ) :
    RecordField (σ × List String) where
  name := name
  isSet s := s.2.contains name
  read s d := (r d).map fun v => (put s.1 v, name :: s.2)

/-- Reads a record of which every field may be missing. -/
def withDefaults (fields : List (RecordField (σ × List String))) (start : σ) : Reader σ :=
  record fields (start, []) fun s => some s.1

end Reader

/-! ## Whole values -/

namespace Draft

mutual

/-- The value of a draft without faults, up to `room` arrays and objects inside one another. -/
def settle (room : Nat) : Draft → Except Fault Json
  | null => .ok .null
  | bool b => .ok (.bool b)
  | number n ending =>
    if ending = .complete && ! n.tooLarge then .ok (.number n)
    else .error (number n ending).otherwise
  | string text _ => text.map .string
  | array items ending =>
    if room = 0 then .error .malformed
    else match settleItems (room - 1) items with
      | .error f => .error f
      | .ok values => Reader.close ending (.array values)
  | object members ending =>
    if room = 0 then .error .malformed
    else match settleMembers (room - 1) members with
      | .error f => .error f
      | .ok values => Reader.close ending (.object values)
  | word f => .error f
  | absent f => .error f

def settleItems (room : Nat) : List Draft → Except Fault (List Json)
  | [] => .ok []
  | d :: rest => match settle room d with
    | .error f => .error f
    | .ok v => (settleItems room rest).map (v :: ·)

def settleMembers (room : Nat) :
    List (Except Fault String × Draft) → Except Fault (List (String × Json))
  | [] => .ok []
  | (.error f, _) :: _ => .error f
  | (.ok key, d) :: rest => match settle room d with
    | .error f => .error f
    | .ok v => (settleMembers room rest).map ((key, v) :: ·)

end

end Draft

/-- Reads a text that holds one value and nothing else. -/
def decode {α : Type} (r : Reader α) (text : String) : Except Fault α :=
  let (d, rest) := Draft.read text
  match r d with
  | .error f => .error f
  | .ok a => if (Draft.skipSpace rest).isEmpty then .ok a else .error .malformed

end SchemaCatalog.Json
