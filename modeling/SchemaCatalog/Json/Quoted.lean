import SchemaCatalog.Json.Fault
import SchemaCatalog.Text.Digits

/-!
# SchemaCatalog.Json.Quoted

Texts in quotes. A quoted text is first read as characters and 16-bit units (`\uXXXX`), up to the
closing quote or the first thing that cannot stand there; then pairs of units are joined. A unit
that is half of a pair and stands alone spoils the text, but not the reading of what follows it.
-/

namespace SchemaCatalog.Json

open Text

/-- A character of a quoted text, or a unit written by its number. -/
inductive Piece
  | char (c : Char)
  | code (unit : Nat)
  deriving DecidableEq, Repr

namespace Quoted

/-- Can this unit only stand first in a pair? -/
def isLead (unit : Nat) : Bool := 0xD800 ≤ unit && unit ≤ 0xDBFF

def isTrail (unit : Nat) : Bool := 0xDC00 ≤ unit && unit ≤ 0xDFFF

def pair (lead trail : Nat) : Char :=
  Char.ofNat ((lead - 0xD800) * 0x400 + (trail - 0xDC00) + 0x10000)

/-- The text that pieces write, unless half of a pair stands alone. -/
def join : List Piece → Option (List Char)
  | [] => some []
  | .char c :: rest => (join rest).map (c :: ·)
  | .code u :: .code v :: rest =>
    if isLead u then (if isTrail v then (join rest).map (pair u v :: ·) else none)
    else if isTrail u then none
    else (join (.code v :: rest)).map (Char.ofNat u :: ·)
  | .code u :: rest =>
    if isLead u || isTrail u then none else (join rest).map (Char.ofNat u :: ·)

def unescape? : Char → Option Char
  | '"' => some '"'
  | '\\' => some '\\'
  | '/' => some '/'
  | 'b' => some '\x08'
  | 'f' => some '\x0c'
  | 'n' => some '\n'
  | 'r' => some '\r'
  | 't' => some '\t'
  | _ => none

def nearEnd (cs : List Char) : Bool := (String.ofList (cs.take 4)).utf8ByteSize < 4

/-- Reads pieces up to the closing quote. The result is the pieces, last first, the fault that ended
the reading early, and the text behind. -/
def scan (done : List Piece) : List Char → List Piece × Option Fault × List Char
  | [] => (done, some .truncated, [])
  | '"' :: rest => (done, none, rest)
  | ['\\'] => (done, some .truncated, [])
  | '\\' :: 'u' :: a :: b :: c :: d :: rest =>
    match hexadecimal? [a, b, c, d] with
    | some unit => scan (.code unit :: done) rest
    | none => (done, some .malformed, [])
  | '\\' :: 'u' :: rest => (done, some (if nearEnd rest then .truncated else .malformed), [])
  | '\\' :: e :: rest =>
    match unescape? e with
    | some c => scan (.char c :: done) rest
    | none => (done, some .malformed, [])
  | c :: rest =>
    if c.toNat < 0x20 then (done, some .malformed, []) else scan (.char c :: done) rest

/-- The text that was read, or the first fault in it. When the text ends behind the first half of a
pair, the second half is what is missing. -/
def textOf (done : List Piece) (fault : Option Fault) : Except Fault String :=
  let pieces := match fault, done with
    | some _, .code u :: before => if isLead u then before else done
    | _, _ => done
  match join pieces.reverse, fault with
  | none, _ => .error .malformed
  | some _, some f => .error f
  | some cs, none => .ok (String.ofList cs)

theorem scan_rest_le (done : List Piece) (cs : List Char) :
    (scan done cs).2.2.length ≤ cs.length := by
  fun_induction scan done cs <;> simp only [List.length_cons, List.length_nil] at * <;> omega

end Quoted

/-- A text in quotes, as far as it could be read. -/
structure Quoted where
  text : Except Fault String
  fault : Option Fault
  rest : List Char

def Quoted.read (cs : List Char) : Quoted :=
  let (done, fault, rest) := scan [] cs
  ⟨textOf done fault, fault, rest⟩

theorem Quoted.read_rest_le (cs : List Char) : (read cs).rest.length ≤ cs.length :=
  scan_rest_le [] cs

end SchemaCatalog.Json
