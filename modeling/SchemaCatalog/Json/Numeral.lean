import SchemaCatalog.Text.Digits

/-!
# SchemaCatalog.Json.Numeral

Numbers as JSON writes them. A numeral is kept as its digits; what readers ask is only whether it is
a natural number, and whether it is too large for a binary floating-point number of 64 bits.

The size is estimated from the digits that fit 64 bits: they and the power of ten behind them are
rounded to 53 bits each, and the numeral is too large if their product rounds past the largest
finite number.
-/

namespace SchemaCatalog.Json

open Text

/-- A number as it is written. -/
structure Numeral where
  negative : Bool := false
  whole : List Char
  fraction : Option (List Char) := none
  /-- Is the exponent negative, and its digits. -/
  exponent : Option (Bool × List Char) := none
  deriving DecidableEq, Repr, Inhabited

namespace Numeral

def ofNat (n : Nat) : Numeral := { whole := Nat.toDigits 10 n }

def text (n : Numeral) : String :=
  String.ofList <|
    (if n.negative then ['-'] else []) ++ n.whole ++
    (match n.fraction with
      | some digits => '.' :: digits
      | none => []) ++
    (match n.exponent with
      | some (true, digits) => 'e' :: '-' :: digits
      | some (false, digits) => 'e' :: digits
      | none => [])

/-- The value of a numeral that is written as a natural number. -/
def natural? (n : Numeral) : Option Nat :=
  if n.negative || n.fraction.isSome || n.exponent.isSome then none else some (decimal n.whole)

/-! ## Size -/

/-- Appends digits to a number as long as the result fits 64 bits; the digits that do not fit are
left over. -/
def feed (n : Nat) : List Char → Nat × List Char
  | [] => (n, [])
  | c :: rest =>
    let next := n * 10 + digitValue c
    if next < UInt64.size then feed next rest else (n, c :: rest)

/-- Rounds to 53 significant bits, halves to even. -/
def round53 (n : Nat) : Nat :=
  let shift := n.log2 + 1 - 53
  if shift = 0 then n
  else
    let q := n >>> shift
    let half := 1 <<< (shift - 1)
    let r := n % (2 * half)
    let q := if r > half || (r == half && q % 2 == 1) then q + 1 else q
    q <<< shift

/-- Does `digits * 10 ^ exponent` round past the largest finite number? -/
def overflows (digits : Nat) (exponent : Int) : Bool :=
  if digits = 0 || exponent < 0 then false
  else
    308 < exponent ||
      1 <<< 1024 - 1 <<< 970 ≤ round53 digits * round53 (Nat.pow 10 exponent.toNat)

def tooLarge (n : Numeral) : Bool :=
  let (digits, left) := feed 0 n.whole
  let fraction := n.fraction.getD []
  let (digits, left') := feed digits fraction
  let scale : Int := left.length - (fraction.length - left'.length : Nat)
  match n.exponent with
  | none => overflows digits scale
  | some (negative, e) =>
    overflows digits (if negative then scale - decimal e else scale + decimal e)

/-! ## Reading -/

inductive Ending
  | complete
  /-- The text ends where a digit has to follow. -/
  | cut
  /-- Something else stands where a digit has to follow. -/
  | wrong
  deriving DecidableEq, Repr

/-- How digits end, at least one of which has to be there. -/
def digitsEnding (digits rest : List Char) : Ending :=
  if digits.isEmpty then (if rest.isEmpty then .cut else .wrong) else .complete

/-- What a scan has read, how it ended, and the text behind it. -/
structure Scan where
  numeral : Numeral
  ending : Ending
  rest : List Char

def takeSign : List Char → Bool × List Char
  | '-' :: cs => (true, cs)
  | '+' :: cs => (false, cs)
  | cs => (false, cs)

/-- Reads the exponent behind a numeral, if there is one. -/
def scanExponent (n : Numeral) : List Char → Scan
  | [] => ⟨n, .complete, []⟩
  | c :: cs =>
    if c = 'e' || c = 'E' then
      let signed := takeSign cs
      let digits := signed.2.takeWhile isDigit
      let rest := signed.2.dropWhile isDigit
      ⟨{ n with exponent := some (signed.1, digits) }, digitsEnding digits rest, rest⟩
    else ⟨n, .complete, c :: cs⟩

def scanFraction (n : Numeral) : List Char → Scan
  | '.' :: cs =>
    let digits := cs.takeWhile isDigit
    let rest := cs.dropWhile isDigit
    match digitsEnding digits rest with
    | .complete => scanExponent { n with fraction := some digits } rest
    | ending => ⟨n, ending, rest⟩
  | cs => scanExponent n cs

/-- Reads a numeral behind its sign. A zero in front of other digits is wrong. -/
def scanUnsigned (negative : Bool) (cs : List Char) : Scan :=
  let whole := cs.takeWhile isDigit
  let rest := cs.dropWhile isDigit
  let n : Numeral := { negative, whole }
  match whole with
  | '0' :: _ :: _ => ⟨n, .wrong, rest⟩
  | _ => match digitsEnding whole rest with
    | .complete => scanFraction n rest
    | ending => ⟨n, ending, rest⟩

def scan : List Char → Scan
  | '-' :: cs => scanUnsigned true cs
  | cs => scanUnsigned false cs

theorem length_dropWhile_le (p : Char → Bool) (cs : List Char) :
    (cs.dropWhile p).length ≤ cs.length :=
  (List.dropWhile_suffix p).length_le

theorem takeSign_rest_le (cs : List Char) : (takeSign cs).2.length ≤ cs.length := by
  unfold takeSign
  split <;> simp

/-- No part of a scan makes the text longer. -/
theorem scanExponent_rest_le (n : Numeral) (cs : List Char) :
    (scanExponent n cs).rest.length ≤ cs.length := by
  unfold scanExponent
  split
  · simp
  · rename_i cs
    have h₁ := length_dropWhile_le isDigit (takeSign cs).2
    have h₂ := takeSign_rest_le cs
    split <;> simp only [List.length_cons] <;> omega

theorem scanFraction_rest_le (n : Numeral) (cs : List Char) :
    (scanFraction n cs).rest.length ≤ cs.length := by
  unfold scanFraction
  split
  · rename_i cs
    have h := length_dropWhile_le isDigit cs
    simp only [List.length_cons]
    split
    · have := scanExponent_rest_le { n with fraction := some (cs.takeWhile isDigit) }
        (cs.dropWhile isDigit)
      omega
    · simp only; omega
  · exact scanExponent_rest_le n cs

theorem scanUnsigned_rest_le (negative : Bool) (cs : List Char) :
    (scanUnsigned negative cs).rest.length ≤ cs.length := by
  have h := length_dropWhile_le isDigit cs
  simp only [scanUnsigned]
  split
  · exact h
  · split
    · exact Nat.le_trans (scanFraction_rest_le _ _) h
    · exact h

theorem scan_rest_le (cs : List Char) : (scan cs).rest.length ≤ cs.length := by
  unfold scan
  split
  · rename_i cs
    have := scanUnsigned_rest_le true cs
    simp only [List.length_cons]; omega
  · exact scanUnsigned_rest_le false cs

end Numeral

end SchemaCatalog.Json
