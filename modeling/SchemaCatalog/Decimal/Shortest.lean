import SchemaCatalog.Decimal.Binary64

/-!
# SchemaCatalog.Decimal.Shortest

The text of a floating-point number: the fewest digits that read back as the number, nearest to it
among those, and always written positionally.

A number stands for the interval of all reals that round to it. For one power of ten after the
other, from the largest down, the two multiples beside the number are tried; the first that lies in
the interval is taken.
-/

namespace SchemaCatalog.Decimal

/-- The reals that round to a number, in units of `2 ^ exponent`. The ends belong to them if
`closed` is set. -/
structure Interval where
  low : Nat
  middle : Nat
  high : Nat
  exponent : Int
  closed : Bool

namespace Interval

/-- The interval of a finite number. The numbers below a power of two lie closer together than those
above it. -/
def around (mantissa : Nat) (exponent : Int) : Interval :=
  let narrow := mantissa = Binary64.mantissaBound / 2 && Binary64.minExponent < exponent
  { low := 4 * mantissa - (if narrow then 1 else 2), middle := 4 * mantissa
    high := 4 * mantissa + 2, exponent := exponent - 2, closed := mantissa % 2 == 0 }

/-- The factors that make multiples of `10 ^ power` and of the unit comparable. -/
def factors (i : Interval) (power : Int) : Nat × Nat :=
  (Nat.pow 10 power.toNat <<< (-i.exponent).toNat,
    Nat.pow 10 (-power).toNat <<< i.exponent.toNat)

/-- The multiplier of `10 ^ power` that lies in the interval and is nearest to its middle, if there
is one. -/
def multiple? (i : Interval) (power : Int) : Option Nat :=
  let (p, q) := i.factors power
  let inside (d : Nat) : Bool :=
    d != 0 && (if i.closed then i.low * q ≤ d * p && d * p ≤ i.high * q
      else i.low * q < d * p && d * p < i.high * q)
  let below := i.middle * q / p
  match inside below, inside (below + 1) with
  | true, true =>
    some (if i.middle * q - below * p < (below + 1) * p - i.middle * q then below else below + 1)
  | true, false => some below
  | false, true => some (below + 1)
  | false, false => none

def search (i : Interval) (power : Int) : Nat → Nat × Int
  | 0 => (0, power)
  | fuel + 1 => match i.multiple? power with
    | some d => (d, power)
    | none => search i (power - 1) fuel

end Interval

/-- The shortest digits of a finite number other than zero, and the power of ten that belongs to
them. The highest power tried lies above the number; seventeen digits always suffice. -/
def shortest (mantissa : Nat) (exponent : Int) : Nat × Int :=
  let top : Int := (exponent + mantissa.log2) * 30103 / 100000 + 2
  (Interval.around mantissa exponent).search top 24

/-- The text of `digits * 10 ^ power`, without an exponent. -/
def positional (digits : Nat) (power : Int) : String :=
  let ds := Nat.toDigits 10 digits
  if 0 ≤ power then String.ofList (ds ++ List.replicate power.toNat '0')
  else
    let places := (-power).toNat
    let padded := List.replicate (places + 1 - ds.length) '0' ++ ds
    String.ofList
      (padded.take (padded.length - places) ++ '.' :: padded.drop (padded.length - places))

/-- The text of a floating-point number. -/
def Binary64.text : Binary64 → String
  | finite negative mantissa exponent =>
    let sign := if negative then "-" else ""
    if mantissa = 0 then sign ++ "0"
    else
      let (digits, power) := shortest mantissa exponent
      sign ++ positional digits power
  | infinite negative => if negative then "-inf" else "inf"
  | undefined => "NaN"

end SchemaCatalog.Decimal
