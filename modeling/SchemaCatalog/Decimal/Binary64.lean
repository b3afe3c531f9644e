/-!
# SchemaCatalog.Decimal.Binary64

Binary floating-point numbers of 64 bits, and the one that is nearest to a decimal number. The
arithmetic is exact, on natural numbers.
-/

namespace SchemaCatalog.Decimal

inductive Binary64
  /-- The number `mantissa * 2 ^ exponent`. -/
  | finite (negative : Bool) (mantissa : Nat) (exponent : Int)
  | infinite (negative : Bool)
  | undefined
  deriving DecidableEq, Repr, Inhabited

namespace Binary64

def minExponent : Int := -1074

/-- Every finite mantissa is below this number. -/
def mantissaBound : Nat := 1 <<< 53

/-- The first exponent with which a full mantissa is too large. -/
def exponentBound : Int := 972

def isNonzero : Binary64 → Bool
  | finite _ mantissa _ => mantissa != 0
  | infinite _ | undefined => true

def ratio (n base : Nat) (k : Int) : Nat × Nat :=
  if 0 ≤ k then (n * base.pow k.toNat, 1) else (n, base.pow (-k).toNat)

/-- A quotient, rounded to the nearest number, halves to the even one. -/
def roundDiv (n d : Nat) : Nat :=
  let q := n / d
  let twice := 2 * (n % d)
  if twice > d || (twice == d && q % 2 == 1) then q + 1 else q

def scaled (r : Nat × Nat) (exponent : Int) : Nat × Nat :=
  if 0 ≤ exponent then (r.1, r.2 <<< exponent.toNat) else (r.1 <<< (-exponent).toNat, r.2)

/-- The exponent with which a ratio has a full mantissa, or the least one there is. -/
def exponentFor (r : Nat × Nat) : Int :=
  let guess := max minExponent ((r.1.log2 : Int) - r.2.log2 - 53)
  let s := scaled r guess
  if s.1 / s.2 < mantissaBound then guess else guess + 1

def ofRatio (negative : Bool) (r : Nat × Nat) : Binary64 :=
  let exponent := exponentFor r
  let s := scaled r exponent
  let m := roundDiv s.1 s.2
  let (m, exponent) := if m = mantissaBound then (m / 2, exponent + 1) else (m, exponent)
  if exponent < exponentBound then finite negative m exponent else infinite negative

/-- A scale beyond which the digits of a number do not matter any more, except by their count. -/
def farScale : Int := 400

/-- The number nearest to `digits * 10 ^ scale`. -/
def ofDecimal (negative : Bool) (digits : Nat) (scale : Int) : Binary64 :=
  let size : Int := scale + (Nat.toDigits 10 digits).length
  if digits = 0 || size < -farScale then finite negative 0 minExponent
  else if farScale < size then infinite negative
  else ofRatio negative (ratio digits 10 scale)

end Binary64

end SchemaCatalog.Decimal
