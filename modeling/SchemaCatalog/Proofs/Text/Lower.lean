import SchemaCatalog.Text.Case

/-!
# SchemaCatalog.Proofs.Text.Lower

A text in lower case stays as it is when it is put into lower case once more
(`lower_lower`).  The table of runs decides it: the characters of the runs and
their images are two sets with nothing in common (`numbers_and_images`), so what
a character is mapped to is not mapped any further.  Neither is one of the two
characters with rules of their own an image.
-/

namespace SchemaCatalog.Text

open Case

namespace Case

/-! ## Sets of numbers -/

/-- A set of numbers as one number, whose bits say which are in it. -/
def bits (numbers : List Nat) : Nat := numbers.foldr (fun n set => 1 <<< n ||| set) 0

/-- The bits of a list of numbers stand for membership. -/
theorem testBit_bits {numbers : List Nat} {n : Nat} : (bits numbers).testBit n ↔ n ∈ numbers := by
  induction numbers with
  | nil => simp [bits]
  | cons m numbers ih =>
      have hstep : bits (m :: numbers) = 2 ^ m ||| bits numbers := by
        rw [← Nat.one_shiftLeft]
        rfl
      rw [hstep, Nat.testBit_or, Nat.testBit_two_pow, List.mem_cons, ← ih, Bool.or_eq_true,
        decide_eq_true_eq, eq_comm]

/-- Lists without a common bit have no common number. -/
theorem not_mem_of_bits {l l' : List Nat} (h : bits l &&& bits l' = 0) {n : Nat} (hn : n ∈ l') :
    n ∉ l := by
  intro hmem
  have hboth : (bits l &&& bits l').testBit n := by
    rw [Nat.testBit_and, testBit_bits.mpr hmem, testBit_bits.mpr hn]
    rfl
  rw [h, Nat.zero_testBit] at hboth
  contradiction

/-! ## Runs and their images -/

/-- How far the characters of a run lie behind its first. -/
def Run.offsets (r : Run) : List Nat :=
  (List.range ((r.last - r.first) / r.stride + 1)).map (r.stride * ·)

/-- A number of a run is at one of its offsets. -/
theorem Run.sub_mem_offsets {r : Run} {n : Nat} (h : r.contains n) : n - r.first ∈ r.offsets := by
  simp only [contains, Bool.and_eq_true, decide_eq_true_eq, beq_iff_eq] at h
  obtain ⟨⟨-, hlast⟩, hstride⟩ := h
  have hplace : r.stride * ((n - r.first) / r.stride) = n - r.first :=
    Nat.mul_div_cancel' (Nat.dvd_of_mod_eq_zero hstride)
  refine List.mem_map.mpr ⟨(n - r.first) / r.stride, ?_, hplace⟩
  rw [List.mem_range]
  exact Nat.lt_succ_of_le (Nat.div_le_div_right (Nat.sub_le_sub_right hlast _))

/-- The characters that are not their own lower case, with the capital I with a
dot. -/
def numbers : List Nat := 0x130 :: lowerRuns.flatMap fun r => r.offsets.map (r.first + ·)

/-- What the characters of the runs are mapped to. -/
def images : List Nat := lowerRuns.flatMap fun r => r.offsets.map (r.image + ·)

/-- No character of the runs is an image.  Both sets are single numbers here, so
the whole table is checked by one operation on them. -/
theorem numbers_and_images : bits numbers &&& bits images = 0 := by decide +kernel

/-- A number of a run is among those that have a lower case. -/
theorem mem_numbers {r : Run} (hr : r ∈ lowerRuns) {n : Nat} (h : r.contains n) :
    n ∈ numbers := by
  have hfirst : r.first ≤ n := by
    simp only [Run.contains, Bool.and_eq_true, decide_eq_true_eq] at h
    exact h.1.1
  refine List.mem_cons_of_mem _ (List.mem_flatMap.mpr ⟨r, hr, List.mem_map.mpr ?_⟩)
  exact ⟨n - r.first, r.sub_mem_offsets h, Nat.add_sub_cancel' hfirst⟩

theorem mem_images {r : Run} (hr : r ∈ lowerRuns) {n : Nat} (h : r.contains n) :
    r.image + (n - r.first) ∈ images :=
  List.mem_flatMap.mpr ⟨r, hr, List.mem_map.mpr ⟨_, r.sub_mem_offsets h, rfl⟩⟩

set_option maxRecDepth 3000 in
/-- The run of the capital letters is the only one in ASCII. -/
theorem lowerRuns_ascii :
    ∀ r ∈ lowerRuns, (r.first = 0x41 ∧ r.last = 0x5A) ∨ 0x80 ≤ r.first := by
  decide

end Case

/-! ## Characters in lower case -/

/-- A character that is not changed. -/
def IsLower (c : Char) : Prop := simpleLower c = c ∧ c ≠ 'Σ' ∧ c ≠ 'İ'

instance (c : Char) : Decidable (IsLower c) := inferInstanceAs (Decidable (_ ∧ _))

/-- A character without a lower case of its own is lower case. -/
theorem isLower_of_not_mem {c : Char} (h : c.toNat ∉ numbers) : IsLower c := by
  refine ⟨?_, ?_, ?_⟩
  · have hnone : lowerRuns.find? (·.contains c.toNat) = none :=
      List.find?_eq_none.mpr fun r hr hc => h (mem_numbers hr hc)
    rw [simpleLower, hnone]
  · rintro rfl
    have hrun : ⟨0x3A3, 0x3AB, 1, 0x3C3⟩ ∈ lowerRuns := by decide
    have hcontains : Run.contains ⟨0x3A3, 0x3AB, 1, 0x3C3⟩ 'Σ'.toNat := by decide
    exact h (mem_numbers hrun hcontains)
  · rintro rfl
    exact h List.mem_cons_self

theorem isLower_ofNat {n : Nat} (h : n ∉ numbers) : IsLower (Char.ofNat n) := by
  by_cases hn : n.isValidChar
  · have hnumber : (Char.ofNat n).toNat = n := by
      rw [Char.ofNat, dif_pos hn]
      rfl
    exact isLower_of_not_mem (by rwa [hnumber])
  · rw [Char.ofNat, dif_neg hn]
    decide

/-- Of the characters of ASCII, only the capital letters are changed. -/
theorem isLower_of_ascii {c : Char} (hascii : c.toNat < 0x80)
    (hcapital : c.toNat < 0x41 ∨ 0x5A < c.toNat) : IsLower c := by
  refine ⟨?_, ?_, ?_⟩
  · have hnone : lowerRuns.find? (·.contains c.toNat) = none := by
      refine List.find?_eq_none.mpr fun r hr hc => ?_
      simp only [Run.contains, Bool.and_eq_true, decide_eq_true_eq] at hc
      have hrun := lowerRuns_ascii r hr
      omega
    rw [simpleLower, hnone]
  · rintro rfl
    contradiction
  · rintro rfl
    contradiction

/-- What a character is mapped to by itself is not changed any further. -/
theorem isLower_simpleLower {c : Char} (hsigma : c ≠ 'Σ') (hdotted : c ≠ 'İ') :
    IsLower (simpleLower c) := by
  cases hfind : lowerRuns.find? (·.contains c.toNat) with
  | none =>
      have hself : simpleLower c = c := by rw [simpleLower, hfind]
      exact ⟨by rw [hself, hself], by rwa [hself], by rwa [hself]⟩
  | some r =>
      have hcontains := List.find?_some hfind
      have himage := mem_images (List.mem_of_find?_eq_some hfind) hcontains
      rw [simpleLower, hfind]
      exact isLower_ofNat (not_mem_of_bits numbers_and_images himage)

set_option maxRecDepth 3000 in
/-- Into ASCII only the capital letters are mapped, and the sign of the kelvin. -/
theorem lowerRuns_into_ascii : ∀ r ∈ lowerRuns, r.last < 0x80 ∨ 0x80 ≤ r.image ∨
    r = ⟨0x212A, 0x212A, 1, 0x6B⟩ := by
  decide

/-- ASCII has its own lower case. -/
theorem simpleLower_ascii {c : Char} (h : c.toNat < 0x80) : simpleLower c = c.toLower := by
  have hall : ∀ n < 0x80, simpleLower (Char.ofNat n) = (Char.ofNat n).toLower := by
    decide +kernel
  have hc := hall c.toNat h
  rwa [Char.ofNat_toNat] at hc

/-- What is mapped into ASCII, and neither to zero nor to `k`, comes from ASCII. -/
theorem lt_of_simpleLower {c : Char} (hzero : simpleLower c ≠ '\x00')
    (hascii : (simpleLower c).toNat < 0x80) (hkelvin : simpleLower c ≠ 'k') : c.toNat < 0x80 := by
  cases hfind : lowerRuns.find? (·.contains c.toNat) with
  | none =>
      rw [simpleLower, hfind] at hascii
      exact hascii
  | some r =>
      have hcontains := List.find?_some hfind
      simp only [Run.contains, Bool.and_eq_true, decide_eq_true_eq] at hcontains
      rw [simpleLower, hfind] at hzero hascii hkelvin
      rcases lowerRuns_into_ascii r (List.mem_of_find?_eq_some hfind) with hr | hr | rfl
      · omega
      · dsimp only at hzero hascii
        by_cases hn : (r.image + (c.toNat - r.first)).isValidChar
        · rw [Char.ofNat, dif_pos hn] at hascii
          have hnumber : r.image + (c.toNat - r.first) < 0x80 := hascii
          omega
        · rw [Char.ofNat, dif_neg hn] at hzero
          contradiction
      · have hc : c.toNat - 0x212A = 0 := by
          dsimp only at hcontains
          omega
        dsimp only at hkelvin
        rw [hc] at hkelvin
        exact absurd (by decide) hkelvin

/-! ## Texts in lower case -/

/-- Lower-casing leaves lower-case characters only. -/
theorem isLower_of_mem_lowerAfter {before cs : List Char} {c : Char}
    (h : c ∈ lowerAfter before cs) : IsLower c := by
  induction cs generalizing before with
  | nil => simp [lowerAfter] at h
  | cons d rest ih =>
      rw [lowerAfter, List.mem_append] at h
      rcases h with h | h
      · split at h
        · split at h <;> (rw [List.mem_singleton.mp h]; decide)
        · split at h
          · rcases List.mem_cons.mp h with rfl | h
            · decide
            · rw [List.mem_singleton.mp h]
              decide
          · rw [List.mem_singleton.mp h]
            exact isLower_simpleLower ‹_› ‹_›
      · exact ih h

/-- Lower-case characters stay as they are. -/
theorem lowerAfter_of_isLower {cs : List Char} (h : ∀ c ∈ cs, IsLower c) (before : List Char) :
    lowerAfter before cs = cs := by
  induction cs generalizing before with
  | nil => rfl
  | cons c rest ih =>
      obtain ⟨hself, hsigma, hdotted⟩ := h c List.mem_cons_self
      rw [lowerAfter, if_neg hsigma, if_neg hdotted, hself,
        ih fun d hd => h d (List.mem_cons_of_mem _ hd)]
      rfl

/-- A text of lower-case characters stays as it is. -/
theorem lower_of_isLower {s : String} (h : ∀ c ∈ s.toList, IsLower c) : lower s = s := by
  rw [lower, lowerAfter_of_isLower h, String.ofList_toList]

/-- A text of ASCII without capital letters is its own lower case. -/
theorem lower_of_ascii {s : String}
    (h : ∀ c ∈ s.toList, c.toNat < 0x80 ∧ (c.toNat < 0x41 ∨ 0x5A < c.toNat)) : lower s = s :=
  lower_of_isLower fun c hc => isLower_of_ascii (h c hc).1 (h c hc).2

/-- A text whose lower case is in ASCII comes from there, letter by letter, unless
there is a `k` in it. -/
theorem map_toLower_of_lower {text word : String} (h : lower text = word)
    (hword : ∀ c ∈ word.toList, c ≠ '\x00' ∧ c.toNat < 0x80 ∧ c ≠ 'k') :
    text.toList.map Char.toLower = word.toList := by
  have hall : ∀ (before cs ds : List Char), lowerAfter before cs = ds →
      (∀ c ∈ ds, c ≠ '\x00' ∧ c.toNat < 0x80 ∧ c ≠ 'k') → cs.map Char.toLower = ds := by
    intro before cs ds hlower hds
    induction cs generalizing before ds with
    | nil => exact hlower
    | cons c cs ih =>
        subst hlower
        rw [lowerAfter] at hds ⊢
        split at hds
        · next hsigma =>
          have hfirst := hds _ (List.mem_append_left _ (List.mem_singleton_self _))
          split at hfirst <;> exact absurd hfirst.2.1 (by decide)
        · next hsigma =>
          split at hds
          · have hsecond := hds '\u0307' (by simp)
            exact absurd hsecond.2.1 (by decide)
          · next hdotted =>
            rw [if_neg hsigma, if_neg hdotted, List.singleton_append] at *
            obtain ⟨⟨hzero, hascii, hkelvin⟩, hrest⟩ := List.forall_mem_cons.mp hds
            rw [List.map_cons, ih _ _ rfl hrest,
              simpleLower_ascii (lt_of_simpleLower hzero hascii hkelvin)]
  exact hall [] text.toList word.toList (by rw [← h, lower, String.toList_ofList]) hword

/-- **A text in lower case is its own lower case.** -/
@[simp] theorem lower_lower (s : String) : lower (lower s) = lower s :=
  lower_of_isLower fun c hc => isLower_of_mem_lowerAfter (by simpa [lower] using hc)

end SchemaCatalog.Text
