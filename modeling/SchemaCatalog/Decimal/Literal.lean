import SchemaCatalog.Decimal.Binary64
import SchemaCatalog.Text.Digits

/-!
# SchemaCatalog.Decimal.Literal

Numbers as people write them where no format prescribes more: integers with an optional sign, and
floating-point numbers with or without a point and an exponent.
-/

namespace SchemaCatalog.Decimal

open Text (isDigit decimal)

def takeSign : List Char → Bool × List Char
  | '-' :: rest => (true, rest)
  | '+' :: rest => (false, rest)
  | cs => (false, cs)

def signed (negative : Bool) (digits : List Char) : Int :=
  if negative then -(decimal digits : Int) else decimal digits

def integer? (text : String) : Option Int :=
  let (negative, digits) := takeSign text.toList
  if digits.isEmpty || ! digits.all isDigit then none else some (signed negative digits)

/-- The exponent at the end of a number; nothing at all counts as zero. -/
def exponent? : List Char → Option Int
  | [] => some 0
  | c :: rest =>
    if c = 'e' || c = 'E' then integer? (String.ofList rest) else none

def words : List (String × (Bool → Binary64)) :=
  [("inf", .infinite), ("infinity", .infinite), ("nan", fun _ => .undefined)]

/-- The digits behind a point, and what follows them. -/
def takeFraction : List Char → List Char × List Char
  | '.' :: rest => (rest.takeWhile isDigit, rest.dropWhile isDigit)
  | cs => ([], cs)

/-- The floating-point number that a text writes. -/
def float? (text : String) : Option Binary64 :=
  let (negative, cs) := takeSign text.toList
  match words.lookup (String.ofList (cs.map Char.toLower)) with
  | some word => some (word negative)
  | none =>
    let whole := cs.takeWhile isDigit
    let (fraction, rest) := takeFraction (cs.dropWhile isDigit)
    if whole.isEmpty && fraction.isEmpty then none
    else (exponent? rest).map fun e =>
      .ofDecimal negative (decimal (whole ++ fraction)) (e - fraction.length)

end SchemaCatalog.Decimal
