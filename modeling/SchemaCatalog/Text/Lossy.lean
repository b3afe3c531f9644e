/-!
# SchemaCatalog.Text.Lossy

Reading bytes as UTF-8 where it may be wrong. Each longest piece that begins like a character and
cannot be completed is replaced by U+FFFD, and so is each byte that begins no character.
-/

namespace SchemaCatalog.Text

/-- What the bytes of a character mean so far. -/
structure Unfinished where
  missing : Nat
  bits : Nat
  low : Nat := 0x80
  high : Nat := 0xBF
  deriving DecidableEq, Repr

/-- What the first byte of a character means: a whole character, the beginning of one, or
nothing. -/
inductive FirstByte
  | whole (c : Char)
  | begun (u : Unfinished)
  | wrong

/-- The meaning of a first byte. Overlong forms, halves of pairs and numbers that are too large are
ruled out by the range of the second byte. -/
def FirstByte.of (b : Nat) : FirstByte :=
  if b < 0x80 then whole (Char.ofNat b)
  else if b < 0xC2 then wrong
  else if b < 0xE0 then begun { missing := 1, bits := b - 0xC0 }
  else if b = 0xE0 then begun { missing := 2, bits := 0, low := 0xA0 }
  else if b = 0xED then begun { missing := 2, bits := 0xD, high := 0x9F }
  else if b < 0xF0 then begun { missing := 2, bits := b - 0xE0 }
  else if b = 0xF0 then begun { missing := 3, bits := 0, low := 0x90 }
  else if b < 0xF4 then begun { missing := 3, bits := b - 0xF0 }
  else if b = 0xF4 then begun { missing := 3, bits := 4, high := 0x8F }
  else wrong

def replacement : Char := '\uFFFD'

/-- The characters of bytes, in the middle of a character or between characters. -/
def decodeLossy : Option Unfinished → List UInt8 → List Char
  | none, [] => []
  | some _, [] => [replacement]
  | u, b :: rest =>
    let start (before : List Char) : List Char :=
      match FirstByte.of b.toNat with
      | .whole c => before ++ c :: decodeLossy none rest
      | .begun u => before ++ decodeLossy (some u) rest
      | .wrong => before ++ replacement :: decodeLossy none rest
    match u with
    | none => start []
    | some u =>
      if u.low ≤ b.toNat && b.toNat ≤ u.high then
        let bits := u.bits * 64 + (b.toNat - 0x80)
        if u.missing ≤ 1 then Char.ofNat bits :: decodeLossy none rest
        else decodeLossy (some { missing := u.missing - 1, bits }) rest
      else start [replacement]

/-- The text of bytes. -/
def ofBytesLossy (bytes : ByteArray) : String := String.ofList (decodeLossy none bytes.data.toList)

end SchemaCatalog.Text
