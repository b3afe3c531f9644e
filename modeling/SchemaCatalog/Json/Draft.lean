import SchemaCatalog.Json.Basic
import SchemaCatalog.Json.Quoted

/-!
# SchemaCatalog.Json.Draft

What can be read of a JSON value from a text that may break off or go wrong. A draft is the value up
to its first fault, with the fault at the place where it was met, so a reader that wants a certain
shape can go through a draft from left to right and report whichever comes first, a fault of the
text or a mismatch of the shape.

The reading keeps the open arrays and objects on a stack, so it is one loop; it ends because each
round takes at least one character (`Draft.read`).
-/

namespace SchemaCatalog.Json

/-- How the items of an array or the members of an object end. -/
inductive Ending
  | closed
  /-- Neither a comma nor the closing bracket follows. -/
  | broken (fault : Fault)
  /-- A comma follows, but neither an item nor a key behind it. -/
  | afterComma (fault : Fault)
  /-- An object begins with something other than a key; `asName` is the fault of reading a quoted
  name there. -/
  | notAKey (asName : Fault)
  deriving DecidableEq, Repr

def Ending.fault? : Ending → Option Fault
  | closed => none
  | broken f | afterComma f => some f
  | notAKey _ => some .malformed

/-- A JSON value, as far as it could be read. -/
inductive Draft
  | null
  | bool (value : Bool)
  | number (numeral : Numeral) (ending : Numeral.Ending)
  /-- A text, or the first fault in it; `fault` is what kept it from being closed. -/
  | string (text : Except Fault String) (fault : Option Fault)
  | array (items : List Draft) (ending : Ending)
  | object (members : List (Except Fault String × Draft)) (ending : Ending)
  /-- A word that begins like `null`, `true` or `false` and goes on differently. -/
  | word (fault : Fault)
  /-- No value begins here. -/
  | absent (fault : Fault)
  deriving Inhabited

namespace Draft

/-- The fault in a value that nobody looks into. Lone halves of pairs and numbers that are too large
do not count; a numeral without its digits is malformed wherever it ends. -/
def fault? : Draft → Option Fault
  | null | bool _ => none
  | number _ ending => if ending = .complete then none else some .malformed
  | string _ fault => fault
  | array _ ending | object _ ending => ending.fault?
  | word f | absent f => some f

/-- The fault that a reader of another kind of value reports here. A scalar is read to its end
first; an array or object is not entered. -/
def otherwise : Draft → Fault
  | null | bool _ | array _ _ | object _ _ => .mismatch
  | number n .complete => if n.tooLarge then .malformed else .mismatch
  | number _ .cut => .truncated
  | number _ .wrong => .malformed
  | string (.ok _) _ => .mismatch
  | string (.error f) _ => f
  | word f | absent f => f

end Draft

mutual

/-- A value as the draft of a text that holds it. -/
def draft : Json → Draft
  | null => .null
  | bool b => .bool b
  | number n => .number n .complete
  | string text => .string (.ok text) none
  | array items => .array (draftItems items) .closed
  | object members => .object (draftMembers members) .closed

def draftItems : List Json → List Draft
  | [] => []
  | v :: rest => draft v :: draftItems rest

def draftMembers : List (String × Json) → List (Except Fault String × Draft)
  | [] => []
  | (key, v) :: rest => (.ok key, draft v) :: draftMembers rest

end

namespace Draft

/-! ## Reading -/

def isSpace (c : Char) : Bool := c = ' ' || c = '\t' || c = '\n' || c = '\r'

def skipSpace (cs : List Char) : List Char := cs.dropWhile isSpace

/-- Reads the rest of a word: nothing if it is there, else the fault at the first difference. -/
def expect : List Char → List Char → Option Fault
  | [], _ => none
  | _ :: _, [] => some .truncated
  | w :: ws, c :: cs => if w = c then expect ws cs else some .malformed

/-- An array or object that is still open: what it holds so far, last first, and for an object the
key of the value to come. -/
inductive Frame
  | array (items : List Draft)
  | object (members : List (Except Fault String × Draft)) (key : Except Fault String)

/-- Closes the open arrays and objects around a value in which the text went wrong. -/
def unwind (d : Draft) : List Frame → Draft
  | [] => d
  | .array items :: frames =>
    unwind (.array (d :: items).reverse (.broken (d.fault?.getD .malformed))) frames
  | .object members key :: frames =>
    unwind (.object ((key, d) :: members).reverse (.broken (d.fault?.getD .malformed))) frames

/-- A scalar, or the fault that ends the reading in it, and the text behind. -/
def scalar (c : Char) (rest : List Char) : Draft × List Char :=
  if c = '"' then
    let q := Quoted.read rest
    (.string q.text q.fault, q.rest)
  else if c = '-' || Text.isDigit c then
    let s := Numeral.scan (c :: rest)
    (.number s.numeral s.ending, s.rest)
  else if c = 'n' then
    match expect "ull".toList rest with
    | none => (.null, rest.drop 3)
    | some f => (.word f, [])
  else if c = 't' then
    match expect "rue".toList rest with
    | none => (.bool true, rest.drop 3)
    | some f => (.word f, [])
  else if c = 'f' then
    match expect "alse".toList rest with
    | none => (.bool false, rest.drop 4)
    | some f => (.word f, [])
  else (.absent .malformed, [])

/-- A key with its colon: either the text behind the colon, or the members and the ending of an
object that is broken here. -/
def readKey (members : List (Except Fault String × Draft)) (rest : List Char) :
    Except Draft (Except Fault String × List Char) :=
  let q := Quoted.read rest
  let stop (f : Fault) : Draft := .object ((q.text, .absent f) :: members).reverse (.broken f)
  match q.fault with
  | some f => .error (stop f)
  | none => match skipSpace q.rest with
    | ':' :: rest => .ok (q.text, rest)
    | [] => .error (stop .truncated)
    | _ => .error (stop .malformed)

def asName (c : Char) (rest : List Char) : Fault :=
  if c = '[' || c = '\x7b' then .mismatch else (scalar c rest).1.otherwise

theorem skipSpace_le (cs : List Char) : (skipSpace cs).length ≤ cs.length :=
  (List.dropWhile_suffix _).length_le

/-- A scalar takes up some of the text, if anything. -/
theorem scalar_rest_le (c : Char) (rest : List Char) :
    (scalar c rest).2.length ≤ (c :: rest).length := by
  have hq := Quoted.read_rest_le rest
  have hn := Numeral.scan_rest_le (c :: rest)
  unfold scalar
  split
  · simp only [List.length_cons]; omega
  · split
    · exact hn
    · (repeat' split) <;> simp <;> omega

/-- A key takes up some of the text. -/
theorem readKey_rest_lt {members : List (Except Fault String × Draft)} {rest rest' : List Char}
    {key : Except Fault String} (h : readKey members rest = .ok (key, rest')) :
    rest'.length < rest.length := by
  have hq := Quoted.read_rest_le rest
  have hs := skipSpace_le (Quoted.read rest).rest
  simp only [readKey] at h
  split at h
  · cases h
  · split at h
    · rename_i heq
      cases h
      simp only [heq, List.length_cons] at hs
      omega
    · cases h
    · cases h

/-- The loop of the reading: either a value begins here (`none`), or one has just been read and its
place among the open arrays and objects is looked for. -/
def run (focus : Option Draft) (frames : List Frame) (cs : List Char) : Draft × List Char :=
  match _focus : focus, frames, _here : skipSpace cs with
  | none, frames, [] => (unwind (.absent .truncated) frames, [])
  | none, frames, c :: rest =>
    if c = '[' then
      match _inside : skipSpace rest with
      | ']' :: rest' => run (some (.array [] .closed)) frames rest'
      | [] => (unwind (.array [] (.broken .truncated)) frames, [])
      | c' :: rest' => run none (.array [] :: frames) (c' :: rest')
    else if c = '\x7b' then
      match _inside : skipSpace rest with
      | '\x7d' :: rest' => run (some (.object [] .closed)) frames rest'
      | '"' :: rest' =>
        match _key : readKey [] rest' with
        | .ok (key, tail) => run none (.object [] key :: frames) tail
        | .error d => (unwind d frames, [])
      | [] => (unwind (.object [] (.broken .truncated)) frames, [])
      | c' :: rest' => (unwind (.object [] (.notAKey (asName c' rest'))) frames, [])
    else
      let s := scalar c rest
      match s.1.fault? with
      | none => run (some s.1) frames s.2
      | some _ => (unwind s.1 frames, [])
  | some d, [], _ => (d, cs)
  | some d, .array items :: frames, c :: rest =>
    let done := (d :: items).reverse
    if c = ']' then run (some (.array done .closed)) frames rest
    else if c = ',' then
      match _inside : skipSpace rest with
      | [] => (unwind (.array done (.afterComma .truncated)) frames, [])
      | ']' :: _ => (unwind (.array done (.afterComma .malformed)) frames, [])
      | c' :: rest' => run none (.array (d :: items) :: frames) (c' :: rest')
    else (unwind (.array done (.broken .malformed)) frames, [])
  | some d, .array items :: frames, [] =>
    (unwind (.array (d :: items).reverse (.broken .truncated)) frames, [])
  | some d, .object members key :: frames, c :: rest =>
    let done := ((key, d) :: members).reverse
    if c = '\x7d' then run (some (.object done .closed)) frames rest
    else if c = ',' then
      match _inside : skipSpace rest with
      | [] => (unwind (.object done (.afterComma .truncated)) frames, [])
      | '"' :: rest' =>
        match _key : readKey ((key, d) :: members) rest' with
        | .ok (key', tail) => run none (.object ((key, d) :: members) key' :: frames) tail
        | .error d => (unwind d frames, [])
      | _ => (unwind (.object done (.afterComma .malformed)) frames, [])
    else (unwind (.object done (.broken .malformed)) frames, [])
  | some d, .object members key :: frames, [] =>
    (unwind (.object ((key, d) :: members).reverse (.broken .truncated)) frames, [])
  termination_by 2 * cs.length + (if focus.isNone then 1 else 0)
  decreasing_by
    all_goals
      have behind := skipSpace_le cs
      simp only [_here, List.length_cons] at behind
      try have inside := skipSpace_le rest
      try simp only [_inside, List.length_cons] at inside
      try have key := readKey_rest_lt _key
      try have scalar := scalar_rest_le c rest
      try simp only [List.length_cons] at scalar
      try subst _focus
      simp
      try omega

/-- Reads one value, and the text behind it. -/
def read (text : String) : Draft × List Char := run none [] text.toList

end Draft

end SchemaCatalog.Json
