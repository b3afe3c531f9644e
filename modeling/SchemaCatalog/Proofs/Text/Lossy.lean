import SchemaCatalog.Text.Lossy

/-!
# SchemaCatalog.Proofs.Text.Lossy

Bytes that are UTF-8 are read as what they are: nothing is replaced in the
bytes of a text (`ofBytesLossy_toUTF8`).  One character is read byte by byte,
with the number of bytes that its own number asks for, and leaves the reader
between characters again, so a text is read by induction.
-/

namespace SchemaCatalog.Text

/-! ## First bytes -/

namespace FirstByte

variable {b : Nat}

theorem of_one (h : b < 0x80) : of b = .whole (Char.ofNat b) := if_pos h

theorem of_two (hlow : 0xC2 ≤ b) (hhigh : b < 0xE0) :
    of b = .begun { missing := 1, bits := b - 0xC0 } := by
  rw [of, if_neg (by omega), if_neg (by omega), if_pos hhigh]

/-- Of three bytes, the second is kept from writing a number that two bytes
write, or half of a pair. -/
theorem of_three (hlow : 0xE0 ≤ b) (hhigh : b < 0xF0) :
    of b = .begun
      { missing := 2
        bits := b - 0xE0
        low := if b = 0xE0 then 0xA0 else 0x80
        high := if b = 0xED then 0x9F else 0xBF } := by
  rw [of, if_neg (by omega), if_neg (by omega), if_neg (by omega)]
  by_cases hfirst : b = 0xE0
  · subst hfirst
    rfl
  · by_cases hpairs : b = 0xED
    · subst hpairs
      rfl
    · rw [if_neg hfirst, if_neg hpairs, if_pos hhigh, if_neg hfirst, if_neg hpairs]

/-- Of four bytes, the second is kept from writing a number that three bytes
write, or one that is too large. -/
theorem of_four (hlow : 0xF0 ≤ b) (hhigh : b ≤ 0xF4) :
    of b = .begun
      { missing := 3
        bits := b - 0xF0
        low := if b = 0xF0 then 0x90 else 0x80
        high := if b = 0xF4 then 0x8F else 0xBF } := by
  rw [of, if_neg (by omega), if_neg (by omega), if_neg (by omega), if_neg (by omega),
    if_neg (by omega), if_neg (by omega)]
  by_cases hfirst : b = 0xF0
  · subst hfirst
    rfl
  · by_cases hlast : b = 0xF4
    · subst hlast
      rfl
    · rw [if_neg hfirst, if_pos (by omega), if_neg hfirst, if_neg hlast]

end FirstByte

/-! ## One byte -/

section

variable {b : UInt8} {u : Unfinished} {c : Char}

/-- An ASCII byte is a character of its own. -/
theorem decodeLossy_whole (h : FirstByte.of b.toNat = .whole c) (rest : List UInt8) :
    decodeLossy none (b :: rest) = c :: decodeLossy none rest := by
  simp [decodeLossy, h]

/-- A lead byte begins a character. -/
theorem decodeLossy_begun (h : FirstByte.of b.toNat = .begun u) (rest : List UInt8) :
    decodeLossy none (b :: rest) = decodeLossy (some u) rest := by
  simp [decodeLossy, h]

/-- A byte in the middle adds its six bits. -/
theorem decodeLossy_more (hlow : u.low ≤ b.toNat) (hhigh : b.toNat ≤ u.high)
    (hmissing : 1 < u.missing) (rest : List UInt8) :
    decodeLossy (some u) (b :: rest) =
      decodeLossy
        (some { missing := u.missing - 1, bits := u.bits * 64 + (b.toNat - 0x80) }) rest := by
  simp [decodeLossy, hlow, hhigh, Nat.not_le_of_lt hmissing]

/-- The last byte completes the character. -/
theorem decodeLossy_last (hlow : u.low ≤ b.toNat) (hhigh : b.toNat ≤ u.high)
    (hmissing : u.missing ≤ 1) (rest : List UInt8) :
    decodeLossy (some u) (b :: rest) =
      Char.ofNat (u.bits * 64 + (b.toNat - 0x80)) :: decodeLossy none rest := by
  simp [decodeLossy, hlow, hhigh, hmissing]

end

/-! ## One character -/

section

variable {n : Nat} (rest : List UInt8)

theorem toNat_byte {n : Nat} (h : n < 256) : (UInt8.ofNat n).toNat = n := by
  rw [UInt8.toNat_ofNat']
  exact Nat.mod_eq_of_lt h

theorem decodeLossy_one (h : n < 0x80) :
    decodeLossy none (UInt8.ofNat n :: rest) = Char.ofNat n :: decodeLossy none rest := by
  have hb : (UInt8.ofNat n).toNat = n := toNat_byte (by omega)
  exact decodeLossy_whole (by rw [hb, FirstByte.of_one h]) rest

/-- A character of two bytes is decoded. -/
theorem decodeLossy_two (hlow : 0x80 ≤ n) (hhigh : n < 0x800) :
    decodeLossy none (UInt8.ofNat (n / 64 % 32 + 192) :: UInt8.ofNat (n % 64 + 128) :: rest) =
      Char.ofNat n :: decodeLossy none rest := by
  have h₁ : (UInt8.ofNat (n / 64 % 32 + 192)).toNat = n / 64 + 192 := by
    rw [toNat_byte (by omega)]
    omega
  have h₂ : (UInt8.ofNat (n % 64 + 128)).toNat = n % 64 + 128 := toNat_byte (by omega)
  rw [decodeLossy_begun (by rw [h₁, FirstByte.of_two (by omega) (by omega)]),
    decodeLossy_last (by rw [h₂]; simp) (by rw [h₂]; simp; omega) (by simp), h₂]
  refine congrArg (Char.ofNat · :: decodeLossy none rest) ?_
  dsimp only
  omega

/-- A character of three bytes is decoded. -/
theorem decodeLossy_three (hlow : 0x800 ≤ n) (hhigh : n < 0x10000)
    (hvalid : n < 0xD800 ∨ 0xDFFF < n) :
    decodeLossy none (UInt8.ofNat (n / 4096 % 16 + 224) :: UInt8.ofNat (n / 64 % 64 + 128) ::
        UInt8.ofNat (n % 64 + 128) :: rest) =
      Char.ofNat n :: decodeLossy none rest := by
  have h₁ : (UInt8.ofNat (n / 4096 % 16 + 224)).toNat = n / 4096 + 224 := by
    rw [toNat_byte (by omega)]
    omega
  have h₂ : (UInt8.ofNat (n / 64 % 64 + 128)).toNat = n / 64 % 64 + 128 := toNat_byte (by omega)
  have h₃ : (UInt8.ofNat (n % 64 + 128)).toNat = n % 64 + 128 := toNat_byte (by omega)
  rw [decodeLossy_begun (by rw [h₁, FirstByte.of_three (by omega) (by omega)]),
    decodeLossy_more (by rw [h₂]; dsimp only; split <;> omega)
      (by rw [h₂]; dsimp only; split <;> omega) (by simp),
    decodeLossy_last (by rw [h₃]; simp) (by rw [h₃]; simp; omega) (by simp), h₂, h₃]
  refine congrArg (Char.ofNat · :: decodeLossy none rest) ?_
  dsimp only
  omega

/-- A character of four bytes is decoded. -/
theorem decodeLossy_four (hlow : 0x10000 ≤ n) (hhigh : n < 0x110000) :
    decodeLossy none (UInt8.ofNat (n / 262144 % 8 + 240) :: UInt8.ofNat (n / 4096 % 64 + 128) ::
        UInt8.ofNat (n / 64 % 64 + 128) :: UInt8.ofNat (n % 64 + 128) :: rest) =
      Char.ofNat n :: decodeLossy none rest := by
  have h₁ : (UInt8.ofNat (n / 262144 % 8 + 240)).toNat = n / 262144 + 240 := by
    rw [toNat_byte (by omega)]
    omega
  have h₂ : (UInt8.ofNat (n / 4096 % 64 + 128)).toNat = n / 4096 % 64 + 128 :=
    toNat_byte (by omega)
  have h₃ : (UInt8.ofNat (n / 64 % 64 + 128)).toNat = n / 64 % 64 + 128 := toNat_byte (by omega)
  have h₄ : (UInt8.ofNat (n % 64 + 128)).toNat = n % 64 + 128 := toNat_byte (by omega)
  rw [decodeLossy_begun (by rw [h₁, FirstByte.of_four (by omega) (by omega)]),
    decodeLossy_more (by rw [h₂]; dsimp only; split <;> omega)
      (by rw [h₂]; dsimp only; split <;> omega) (by simp),
    decodeLossy_more (by rw [h₃]; simp) (by rw [h₃]; simp; omega) (by simp),
    decodeLossy_last (by rw [h₄]; simp) (by rw [h₄]; simp; omega) (by simp), h₂, h₃, h₄]
  refine congrArg (Char.ofNat · :: decodeLossy none rest) ?_
  dsimp only
  omega

/-- The bytes of a character are read as the character. -/
theorem decodeLossy_encode (c : Char) :
    decodeLossy none (String.utf8EncodeChar c ++ rest) = c :: decodeLossy none rest := by
  have hvalid : c.val.toNat < 0xD800 ∨ (0xDFFF < c.val.toNat ∧ c.val.toNat < 0x110000) := c.valid
  have hself : Char.ofNat c.val.toNat = c := Char.ofNat_toNat c
  rw [String.utf8EncodeChar]
  split
  · rw [List.singleton_append, decodeLossy_one rest (by omega), hself]
  · split
    · exact (decodeLossy_two rest (by omega) (by omega)).trans (by rw [hself])
    · split
      · exact (decodeLossy_three rest (by omega) (by omega) (by omega)).trans (by rw [hself])
      · exact (decodeLossy_four rest (by omega) (by omega)).trans (by rw [hself])

end

/-! ## Texts -/

/-- The encoding of a text is decoded to the text. -/
theorem decodeLossy_flatMap (cs : List Char) :
    decodeLossy none (cs.flatMap String.utf8EncodeChar) = cs := by
  induction cs with
  | nil => rfl
  | cons c cs ih => rw [List.flatMap_cons, decodeLossy_encode, ih]

/-- The bytes of a text are those of its characters. -/
theorem toList_data_toUTF8 (s : String) :
    s.toUTF8.data.toList = s.toList.flatMap String.utf8EncodeChar := by
  conv => lhs; rw [← String.ofList_toList (s := s)]
  rw [String.toUTF8_eq_toByteArray, String.toByteArray_ofList, List.utf8Encode,
    List.toList_data_toByteArray]

/-- **The bytes of a text are read as the text.** -/
@[simp] theorem ofBytesLossy_toUTF8 (s : String) : ofBytesLossy s.toUTF8 = s := by
  rw [ofBytesLossy, toList_data_toUTF8, decodeLossy_flatMap, String.ofList_toList]

end SchemaCatalog.Text
