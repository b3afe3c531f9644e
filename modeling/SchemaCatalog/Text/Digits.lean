/-!
# SchemaCatalog.Text.Digits

Digits, and the numbers that they write.
-/

namespace SchemaCatalog.Text

def isDigit (c : Char) : Bool := '0' ≤ c && c ≤ '9'

def digitValue (c : Char) : Nat := c.toNat - '0'.toNat

/-- The value of a hexadecimal digit in either case. -/
def hexValue? (c : Char) : Option Nat :=
  if isDigit c then some (digitValue c)
  else if 'a' ≤ c && c ≤ 'f' then some (c.toNat - 'a'.toNat + 10)
  else if 'A' ≤ c && c ≤ 'F' then some (c.toNat - 'A'.toNat + 10)
  else none

/-- The number that digits of a base write, the highest first. -/
def ofDigits (base : Nat) (digits : List Nat) : Nat := digits.foldl (fun n d => n * base + d) 0

def decimal (digits : List Char) : Nat := ofDigits 10 (digits.map digitValue)

/-- Does a number fit into 64 bits with a sign? -/
def fitsWord (n : Int) : Bool := -0x8000000000000000 ≤ n && n < 0x8000000000000000

def hexadecimal? (digits : List Char) : Option Nat :=
  (digits.mapM hexValue?).map (ofDigits 16)

def hexDigit (n : Nat) : Char := "0123456789abcdef".toList.getD n '0'

/-- The lower-case hexadecimal text of a number, padded to a width. -/
def toHex (width n : Nat) : String :=
  String.ofList ((List.range width).reverse.map fun i => hexDigit (n >>> (4 * i) % 16))

end SchemaCatalog.Text
