import SchemaCatalog.Proofs.Json.Delimited

/-!
# SchemaCatalog.Proofs.Json.Written

A value that is written is read back: what is read of its text, compact or
pretty, is the draft of the value, and nothing is left over (`read_compact`,
`read_pretty`).

The two forms differ in blanks only, so both are the text of the value in some
layout (`Layout.write`), and the loop of the reader is followed through that
text once, for all layouts (`Layout.reads_write`).  Numbers are the delicate
part, as they do not end themselves; behind each stands a blank, a comma or a
closing bracket, or nothing at all (`Stops`).
-/

namespace SchemaCatalog.Json

open Text

/-! ## numerals -/

/-- Nothing at the beginning of the text continues a numeral. -/
def Stops (cs : List Char) : Prop :=
  ∀ c ∈ cs.head?, isDigit c = false ∧ c ≠ '.' ∧ c ≠ 'e' ∧ c ≠ 'E'

theorem stops_nil : Stops [] := by
  intro c hc
  contradiction

namespace Numeral

theorem isDigit_of_mem_toDigits {k : Nat} {c : Char} (h : c ∈ Nat.toDigits 10 k) :
    isDigit c = true := by
  have hdigit := Nat.isDigit_of_mem_toDigits (by decide) (by decide) h
  simpa [Char.isDigit, isDigit, Char.le_def] using hdigit

/-- A number has a digit at least. -/
theorem exists_toDigits (k : Nat) : ∃ c cs, Nat.toDigits 10 k = c :: cs ∧ isDigit c = true := by
  obtain ⟨c, cs, hk⟩ := List.exists_cons_of_ne_nil (Nat.toDigits_ne_nil (n := k) (b := 10))
  exact ⟨c, cs, hk, isDigit_of_mem_toDigits (hk ▸ List.mem_cons_self)⟩

/-- The digits of a number begin with a zero for zero only. -/
theorem eq_zero_of_head?_toDigits {k : Nat} (h : (Nat.toDigits 10 k).head? = some '0') : k = 0 := by
  induction k using Nat.strongRecOn with
  | ind k ih =>
      rw [Nat.toDigits_eq_if (by decide)] at h
      split at h
      · next hsmall =>
        have hchars : ∀ d < 10, Nat.digitChar d = '0' → d = 0 := by decide
        exact hchars k hsmall (by simpa using h)
      · next hlarge =>
        rw [List.head?_append_of_ne_nil _ Nat.toDigits_ne_nil] at h
        have hzero := ih (k / 10) (by omega) h
        omega

/-- The digits of a number are read as the number. -/
theorem decimal_toDigits (k : Nat) : decimal (Nat.toDigits 10 k) = k := by
  have hvalue := Nat.ofDigitChars_toDigits (b := 10) (n := k) (by decide) (by decide)
  rw [Nat.ofDigitChars_eq_foldl] at hvalue
  simpa only [decimal, ofDigits, List.foldl_map, digitValue, Nat.mul_comm] using hvalue

/-- A numeral written for a number is natural and has its value. -/
theorem natural?_ofNat (k : Nat) : (ofNat k).natural? = some k := by
  rw [natural?, ofNat]
  simp [decimal_toDigits]

theorem toList_text_ofNat (k : Nat) : (ofNat k).text.toList = Nat.toDigits 10 k := by
  simp [text, ofNat]

/-- **A natural number is read back** where nothing continues it. -/
theorem scan_toDigits (k : Nat) {more : List Char} (h : Stops more) :
    scan (Nat.toDigits 10 k ++ more) = ⟨ofNat k, .complete, more⟩ := by
  have hdigits : ∀ c ∈ Nat.toDigits 10 k, isDigit c = true := fun c => isDigit_of_mem_toDigits
  have hnone : more.takeWhile isDigit = [] ∧ more.dropWhile isDigit = more := by
    cases more with
    | nil => exact ⟨rfl, rfl⟩
    | cons c more =>
        have hc := (h c rfl).1
        simp [hc]
  have hwhole : (Nat.toDigits 10 k ++ more).takeWhile isDigit = Nat.toDigits 10 k := by
    rw [List.takeWhile_append_of_pos hdigits, hnone.1, List.append_nil]
  have hrest : (Nat.toDigits 10 k ++ more).dropWhile isDigit = more := by
    rw [List.dropWhile_append_of_pos hdigits, hnone.2]
  have hending : digitsEnding (Nat.toDigits 10 k) more = .complete := by
    simp [digitsEnding, Nat.toDigits_ne_nil]
  have hexponent : scanExponent (ofNat k) more = ⟨ofNat k, .complete, more⟩ := by
    cases more with
    | nil => rfl
    | cons c more =>
        obtain ⟨-, -, hsmall, hlarge⟩ := h c rfl
        simp [scanExponent, hsmall, hlarge]
  have hfraction : scanFraction (ofNat k) more = ⟨ofNat k, .complete, more⟩ := by
    rw [scanFraction.eq_def]
    split
    · next cs => exact absurd rfl (h '.' rfl).2.1
    · exact hexponent
  have hunsigned : scanUnsigned false (Nat.toDigits 10 k ++ more) = ⟨ofNat k, .complete, more⟩ := by
    simp only [scanUnsigned, hwhole, hrest, hending]
    split
    · next hzero =>
      obtain rfl := eq_zero_of_head?_toDigits (k := k) (by rw [hzero]; rfl)
      have hdigit : Nat.toDigits 10 0 = ['0'] := rfl
      simp [hdigit] at hzero
    · exact hfraction
  rw [scan.eq_def]
  split
  · next cs hminus =>
    obtain ⟨c, ds, hk, hc⟩ := exists_toDigits k
    rw [hk, List.cons_append] at hminus
    rw [(List.cons.inj hminus).1] at hc
    contradiction
  · exact hunsigned

end Numeral

/-! ## texts -/

namespace Quoted

/-- The number of a control character is written in four digits. -/
theorem exists_toHex {n : Nat} (h : n < 0x20) :
    ∃ x₁ x₂ x₃ x₄, (toHex 4 n).toList = [x₁, x₂, x₃, x₄] ∧
      hexadecimal? [x₁, x₂, x₃, x₄] = some n := by
  have hdigit : ∀ d < 16, hexValue? (hexDigit d) = some d := by decide
  have hwritten : (toHex 4 n).toList = [hexDigit (n >>> 12 % 16), hexDigit (n >>> 8 % 16),
      hexDigit (n >>> 4 % 16), hexDigit (n % 16)] := by
    rw [toHex, String.toList_ofList]
    rfl
  refine ⟨_, _, _, _, hwritten, ?_⟩
  simp only [hexadecimal?, List.mapM_cons, List.mapM_nil, hdigit _ (Nat.mod_lt _ (by decide)),
    Nat.shiftRight_eq_div_pow]
  simp [ofDigits]
  omega

/-- A piece that writes a character: the character itself, or its number if it
is a control character. -/
inductive Writes (c : Char) : Piece → Prop
  | char : Writes c (.char c)
  | code (h : c.toNat < 0x20) : Writes c (.code c.toNat)

/-- A character is written as one piece. -/
theorem scan_escape_append (c : Char) (done : List Piece) (rest : List Char) :
    ∃ p, Writes c p ∧ scan done (escape c ++ rest) = scan (p :: done) rest := by
  have hletter {e : Char} (hu : e ≠ 'u') (hc : unescape? e = some c) :
      ∃ p, Writes c p ∧ scan done (['\\', e] ++ rest) = scan (p :: done) rest :=
    ⟨_, .char, scan_escape hu hc done rest⟩
  unfold escape
  split
  · next h => exact hletter (by decide) (by rw [h]; rfl)
  next hquote =>
  split
  · next h => exact hletter (by decide) (by rw [h]; rfl)
  next hslash =>
  split
  · next h => exact hletter (by decide) (by rw [h]; rfl)
  split
  · next h => exact hletter (by decide) (by rw [h]; rfl)
  split
  · next h => exact hletter (by decide) (by rw [h]; rfl)
  split
  · next h => exact hletter (by decide) (by rw [h]; rfl)
  split
  · next h => exact hletter (by decide) (by rw [h]; rfl)
  split
  · next hlow =>
    obtain ⟨x₁, x₂, x₃, x₄, hdigits, hvalue⟩ := exists_toHex hlow
    refine ⟨_, .code hlow, ?_⟩
    rw [hdigits]
    simp only [List.cons_append, List.nil_append, scan, hvalue]
  · next hlow => exact ⟨_, .char, scan_char hquote hslash hlow done rest⟩

/-- A code unit outside the surrogates is a character. -/
theorem join_code {u : Nat} (hlead : isLead u = false) (htrail : isTrail u = false)
    (rest : List Piece) : join (.code u :: rest) = (join rest).map (Char.ofNat u :: ·) := by
  cases rest with
  | nil => simp [join, hlead, htrail]
  | cons p rest =>
      cases p with
      | char c => simp [join, hlead, htrail]
      | code v => simp [join, hlead, htrail]

/-- Pieces that write characters join to these characters. -/
theorem join_of_writes {cs : List Char} {ps : List Piece} (h : List.Forall₂ Writes cs ps) :
    join ps = some cs := by
  induction h with
  | nil => rfl
  | @cons c p cs ps hc _ ih =>
      cases hc with
      | char => rw [join, ih, Option.map_some]
      | code hlow =>
          have hlead : isLead c.toNat = false := by simp [isLead]; omega
          have htrail : isTrail c.toNat = false := by simp [isTrail]; omega
          rw [join_code hlead htrail, ih, Option.map_some, Char.ofNat_toNat]

/-- The escaped characters are scanned as pieces that write them. -/
theorem scan_flatMap_escape (cs : List Char) (done : List Piece) (rest : List Char) :
    ∃ ps, List.Forall₂ Writes cs ps ∧
      scan done (cs.flatMap escape ++ '"' :: rest) = (ps.reverse ++ done, none, rest) := by
  induction cs generalizing done with
  | nil => exact ⟨[], .nil, rfl⟩
  | cons c cs ih =>
      obtain ⟨p, hp, hfirst⟩ := scan_escape_append c done (cs.flatMap escape ++ '"' :: rest)
      obtain ⟨ps, hps, hmore⟩ := ih (p :: done)
      refine ⟨p :: ps, .cons hp hps, ?_⟩
      rw [List.flatMap_cons, List.append_assoc, hfirst, hmore]
      simp

/-- **A quoted text is read back.** -/
theorem read_flatMap_escape (text : String) (rest : List Char) :
    read (text.toList.flatMap escape ++ '"' :: rest) = ⟨.ok text, none, rest⟩ := by
  obtain ⟨ps, hps, hscan⟩ := scan_flatMap_escape text.toList [] rest
  rw [read, hscan]
  simp [textOf, join_of_writes hps]

end Quoted

/-! ## layouts -/

open Draft (Blank Reads Round isSpace skipSpace scalar readKey blank_iff)

/-- Where blanks stand in a text: in front of an item, a member or a closing
bracket at some depth, and behind a colon. -/
structure Layout where
  gap : Nat → List Char
  behindColon : List Char
  blank_gap : ∀ depth, Blank (gap depth)
  blank_behindColon : Blank behindColon

namespace Layout

def compact : Layout where
  gap _ := []
  behindColon := []
  blank_gap := by simp [Blank]
  blank_behindColon := by simp [Blank]

def pretty : Layout where
  gap depth := (newLine depth).toList
  behindColon := [' ']
  blank_gap := by simp [Blank, newLine, isSpace]
  blank_behindColon := by simp [Blank, isSpace]

mutual

/-- The text of a value that stands at some depth. -/
def write (l : Layout) (depth : Nat) : Json → List Char
  | .null => "null".toList
  | .bool true => "true".toList
  | .bool false => "false".toList
  | .number n => n.text.toList
  | .string text => (quote text).toList
  | .array [] => ['[', ']']
  | .array items => '[' :: (l.writeItems (depth + 1) items ++ (l.gap depth ++ [']']))
  | .object [] => ['\x7b', '\x7d']
  | .object members => '\x7b' :: (l.writeMembers (depth + 1) members ++ (l.gap depth ++ ['\x7d']))

def writeItems (l : Layout) (depth : Nat) : List Json → List Char
  | [] => []
  | [item] => l.gap depth ++ l.write depth item
  | item :: rest => l.gap depth ++ l.write depth item ++ ',' :: l.writeItems depth rest

def writeMembers (l : Layout) (depth : Nat) : List (String × Json) → List Char
  | [] => []
  | [(key, value)] =>
    l.gap depth ++ ((quote key).toList ++ ':' :: (l.behindColon ++ l.write depth value))
  | (key, value) :: rest =>
    l.gap depth ++ ((quote key).toList ++ ':' :: (l.behindColon ++ l.write depth value)) ++
      ',' :: l.writeMembers depth rest

end

end Layout

mutual

/-- The compact text is what the compact layout writes. -/
theorem toList_compact (depth : Nat) (v : Json) :
    v.compact.toList = Layout.compact.write depth v := by
  match v with
  | .null | .bool true | .bool false | .number _ | .string _ => rfl
  | .array [] => rfl
  | .array (item :: rest) =>
      simp [Json.compact, Layout.write, toList_compactItems (depth + 1) (item :: rest),
        Layout.compact]
  | .object [] => rfl
  | .object (member :: rest) =>
      simp [Json.compact, Layout.write, toList_compactMembers (depth + 1) (member :: rest),
        Layout.compact]

theorem toList_compactItems (depth : Nat) (items : List Json) :
    (compactItems items).toList = Layout.compact.writeItems depth items := by
  match items with
  | [] => rfl
  | [item] =>
      simp [compactItems, Layout.writeItems, toList_compact depth item, Layout.compact]
  | item :: item' :: rest =>
      simp [compactItems, Layout.writeItems, toList_compact depth item,
        toList_compactItems depth (item' :: rest), Layout.compact]

theorem toList_compactMembers (depth : Nat) (members : List (String × Json)) :
    (compactMembers members).toList = Layout.compact.writeMembers depth members := by
  match members with
  | [] => rfl
  | [(key, value)] =>
      simp [compactMembers, Layout.writeMembers, toList_compact depth value, Layout.compact]
  | (key, value) :: member :: rest =>
      simp [compactMembers, Layout.writeMembers, toList_compact depth value,
        toList_compactMembers depth (member :: rest), Layout.compact]

end

mutual

/-- The pretty text is what the pretty layout writes. -/
theorem toList_prettyAt (depth : Nat) (v : Json) :
    (prettyAt depth v).toList = Layout.pretty.write depth v := by
  match v with
  | .null | .bool true | .bool false | .number _ | .string _ => rfl
  | .array [] => simp [prettyAt, Layout.write]
  | .array (item :: rest) =>
      simp [prettyAt, Layout.write, toList_prettyItems (depth + 1) (item :: rest), Layout.pretty]
  | .object [] => simp [prettyAt, Layout.write]
  | .object (member :: rest) =>
      simp [prettyAt, Layout.write, toList_prettyMembers (depth + 1) (member :: rest),
        Layout.pretty]

theorem toList_prettyItems (depth : Nat) (items : List Json) :
    (prettyItems depth items).toList = Layout.pretty.writeItems depth items := by
  match items with
  | [] => rfl
  | [item] => simp [prettyItems, Layout.writeItems, toList_prettyAt depth item, Layout.pretty]
  | item :: item' :: rest =>
      simp [prettyItems, Layout.writeItems, toList_prettyAt depth item,
        toList_prettyItems depth (item' :: rest), Layout.pretty]

theorem toList_prettyMembers (depth : Nat) (members : List (String × Json)) :
    (prettyMembers depth members).toList = Layout.pretty.writeMembers depth members := by
  match members with
  | [] => rfl
  | [(key, value)] =>
      simp [prettyMembers, Layout.writeMembers, toList_prettyAt depth value, Layout.pretty]
  | (key, value) :: member :: rest =>
      simp [prettyMembers, Layout.writeMembers, toList_prettyAt depth value,
        toList_prettyMembers depth (member :: rest), Layout.pretty]

end

/-! ## reading what was written -/

mutual

/-- All numbers in a value are natural numbers. -/
def Natural : Json → Prop
  | .null | .bool _ | .string _ => True
  | .number n => ∃ k, n = .ofNat k
  | .array items => NaturalItems items
  | .object members => NaturalMembers members

def NaturalItems : List Json → Prop
  | [] => True
  | item :: rest => Natural item ∧ NaturalItems rest

def NaturalMembers : List (String × Json) → Prop
  | [] => True
  | (_, value) :: rest => Natural value ∧ NaturalMembers rest

end

/-- A text begins, blanks apart, with something other than the end of an
array. -/
def Begins (cs : List Char) : Prop := ∃ c xs, skipSpace cs = c :: xs ∧ c ≠ ']'

namespace Draft

variable {d e : Draft} {frames : List Frame} {cs gap rest more : List Char}

theorem skipSpace_blank_append (h : Blank gap) (cs : List Char) :
    skipSpace (gap ++ cs) = skipSpace cs :=
  skipSpace_append_of_nil (blank_iff.mp h) cs

theorem skipSpace_cons {c : Char} (h : isSpace c = false) (cs : List Char) :
    skipSpace (c :: cs) = c :: cs := by
  rw [skipSpace, List.dropWhile_cons_of_neg (by simp [h])]

theorem skipSpace_skipSpace (cs : List Char) : skipSpace (skipSpace cs) = skipSpace cs :=
  List.dropWhile_idempotent isSpace cs

/-- Blanks in front of a value may be left out. -/
theorem Reads.skipSpace (h : Reads d rest none frames cs) :
    Reads d rest none frames (skipSpace cs) :=
  h.of_skipSpace_eq (skipSpace_skipSpace cs)

/-- A scalar is read in one step. -/
theorem Reads.scalar {c : Char} {s : Draft} (hscalar : scalar c cs = (s, more))
    (hspace : isSpace c = false) (harray : c ≠ '[') (hobject : c ≠ '\x7b')
    (hfault : s.fault? = none) (h : Reads d rest (some s) frames more) :
    Reads d rest none frames (c :: cs) := by
  have hround :
      Round none frames (c :: cs) (some (Draft.scalar c cs).1) frames (Draft.scalar c cs).2 :=
    .readScalar (skipSpace_cons hspace cs) harray hobject (by rw [hscalar]; exact hfault)
  rw [hscalar] at hround
  exact .round hround h

/-- A bracket before an item opens an array. -/
theorem Reads.openItems (h : Reads d rest none (.array [] :: frames) cs) (hcs : Begins cs) :
    Reads d rest none frames ('[' :: cs) := by
  obtain ⟨c, xs, hxs, hc⟩ := hcs
  exact .round (.openArray (skipSpace_cons (by decide) cs) hxs hc) (hxs ▸ h.skipSpace)

/-- A comma keeps the item before it and goes on to the next. -/
theorem Reads.nextItem {items : List Draft}
    (h : Reads d rest none (.array (e :: items) :: frames) cs) (hcs : Begins cs) :
    Reads d rest (some e) (.array items :: frames) (',' :: cs) := by
  obtain ⟨c, xs, hxs, hc⟩ := hcs
  exact .round (.nextItem (skipSpace_cons (by decide) cs) hxs hc) (hxs ▸ h.skipSpace)

/-- A bracket behind an item closes its array. -/
theorem Reads.closeItems {items : List Draft} (hgap : Blank gap)
    (h : Reads d rest (some (.array (e :: items).reverse .closed)) frames more) :
    Reads d rest (some e) (.array items :: frames) (gap ++ ']' :: more) := by
  refine .round (.closeArray ?_) h
  rw [skipSpace_blank_append hgap, skipSpace_cons (by decide)]

/-- A key is read with its colon. -/
theorem readKey_quote (members : List (Except Fault String × Draft)) (key : String)
    (more : List Char) :
    readKey members (key.toList.flatMap escape ++ '"' :: ':' :: more) = .ok (.ok key, more) := by
  simp only [readKey, Quoted.read_flatMap_escape, skipSpace_cons (c := ':') (by decide)]

theorem toList_quote_append (text : String) (more : List Char) :
    (quote text).toList ++ more = '"' :: (text.toList.flatMap escape ++ '"' :: more) := by
  simp [quote]

/-- A brace before a key opens an object. -/
theorem Reads.openMembers {key : String} (hgap : Blank gap)
    (h : Reads d rest none (.object [] (.ok key) :: frames) more) :
    Reads d rest none frames ('\x7b' :: (gap ++ ((quote key).toList ++ ':' :: more))) := by
  refine .round (.openObject (skipSpace_cons (by decide) _) ?_ (readKey_quote [] key more)) h
  rw [skipSpace_blank_append hgap, toList_quote_append, skipSpace_cons (by decide)]

/-- A comma keeps the member before it and goes on to the next key. -/
theorem Reads.nextMember {key key' : String} {members : List (Except Fault String × Draft)}
    (hgap : Blank gap)
    (h : Reads d rest none (.object ((.ok key, e) :: members) (.ok key') :: frames) more) :
    Reads d rest (some e) (.object members (.ok key) :: frames)
      (',' :: (gap ++ ((quote key').toList ++ ':' :: more))) := by
  refine .round (.nextMember (skipSpace_cons (by decide) _) ?_ (readKey_quote _ key' more)) h
  rw [skipSpace_blank_append hgap, toList_quote_append, skipSpace_cons (by decide)]

/-- A brace behind a member closes its object. -/
theorem Reads.closeMembers {key : String} {members : List (Except Fault String × Draft)}
    (hgap : Blank gap)
    (h : Reads d rest (some (.object ((.ok key, e) :: members).reverse .closed)) frames more) :
    Reads d rest (some e) (.object members (.ok key) :: frames) (gap ++ '\x7d' :: more) := by
  refine .round (.closeObject ?_) h
  rw [skipSpace_blank_append hgap, skipSpace_cons (by decide)]

end Draft

/-- A character that is no part of a number stops one. -/
theorem stops_cons {c : Char} (h : isDigit c = false ∧ c ≠ '.' ∧ c ≠ 'e' ∧ c ≠ 'E')
    (cs : List Char) : Stops (c :: cs) := by
  intro c' hc'
  obtain rfl : c = c' := by simpa using hc'
  exact h

/-- Blanks stop a numeral. -/
theorem stops_blank_append {gap cs : List Char} (hgap : Blank gap) (hcs : Stops cs) :
    Stops (gap ++ cs) := by
  cases gap with
  | nil => exact hcs
  | cons c gap =>
      have hc : isSpace c = true := hgap c List.mem_cons_self
      simp only [isSpace, Bool.or_eq_true, decide_eq_true_eq] at hc
      refine stops_cons ?_ _
      rcases hc with ((rfl | rfl) | rfl) | rfl <;> decide

theorem ne_of_isDigit {c x : Char} (h : isDigit c = true) (hx : isDigit x = false) : c ≠ x := by
  rintro rfl
  simp [h] at hx

theorem isSpace_of_isDigit {c : Char} (h : isDigit c = true) : isSpace c = false := by
  simp (disch := decide) [isSpace, ne_of_isDigit h]

/-- The digits of a number are read as its numeral. -/
theorem scalar_toDigits {k : Nat} {c : Char} {cs more : List Char}
    (hk : Nat.toDigits 10 k = c :: cs) (hc : isDigit c = true) (hmore : Stops more) :
    scalar c (cs ++ more) = (.number (.ofNat k) .complete, more) := by
  have hquote : c ≠ '"' := ne_of_isDigit hc (by decide)
  have hscan := Numeral.scan_toDigits k hmore
  rw [hk, List.cons_append] at hscan
  simp [scalar, hquote, hc, hscan]

namespace Layout

/-- An array with items stands in brackets, its items one level in. -/
theorem write_array (l : Layout) (depth : Nat) (item : Json) (items : List Json) :
    l.write depth (.array (item :: items)) =
      '[' :: (l.writeItems (depth + 1) (item :: items) ++ (l.gap depth ++ [']'])) := by
  simp [write]

/-- An object with members stands in braces, its members one level in. -/
theorem write_object (l : Layout) (depth : Nat) (member : String × Json)
    (members : List (String × Json)) :
    l.write depth (.object (member :: members)) =
      '\x7b' :: (l.writeMembers (depth + 1) (member :: members) ++ (l.gap depth ++ ['\x7d'])) := by
  simp [write]

theorem writeItems_cons_cons (l : Layout) (depth : Nat) (item item' : Json) (items : List Json) :
    l.writeItems depth (item :: item' :: items) =
      l.gap depth ++ (l.write depth item ++ ',' :: l.writeItems depth (item' :: items)) := by
  simp [writeItems]

theorem writeMembers_cons_cons (l : Layout) (depth : Nat) (key : String) (value : Json)
    (member : String × Json) (members : List (String × Json)) :
    l.writeMembers depth ((key, value) :: member :: members) =
      l.gap depth ++ ((quote key).toList ++ ':' :: (l.behindColon ++ (l.write depth value ++
        ',' :: l.writeMembers depth (member :: members)))) := by
  simp [writeMembers]

/-- The text of a value begins with a character of its own. -/
theorem exists_write (l : Layout) (depth : Nat) {v : Json} (hv : Natural v) :
    ∃ c xs, l.write depth v = c :: xs ∧ isSpace c = false ∧ c ≠ ']' := by
  match v with
  | .null => exact ⟨'n', _, rfl, by decide, by decide⟩
  | .bool true => exact ⟨'t', _, rfl, by decide, by decide⟩
  | .bool false => exact ⟨'f', _, rfl, by decide, by decide⟩
  | .number n =>
      obtain ⟨k, rfl⟩ := hv
      rw [write, Numeral.toList_text_ofNat]
      obtain ⟨c, cs, hk, hc⟩ := Numeral.exists_toDigits k
      exact ⟨c, cs, hk, isSpace_of_isDigit hc, ne_of_isDigit hc (by decide)⟩
  | .string text =>
      exact ⟨'"', text.toList.flatMap escape ++ ['"'], by simp [write, quote], by decide, by decide⟩
  | .array [] => exact ⟨'[', _, rfl, by decide, by decide⟩
  | .array (item :: items) => exact ⟨'[', _, l.write_array depth item items, by decide, by decide⟩
  | .object [] => exact ⟨'\x7b', _, rfl, by decide, by decide⟩
  | .object (member :: members) =>
      exact ⟨'\x7b', _, l.write_object depth member members, by decide, by decide⟩

/-- A written value begins with no closing bracket, whatever the gap before it. -/
theorem begins_write (l : Layout) (depth : Nat) {v : Json} (hv : Natural v) (more : List Char) :
    Begins (l.gap depth ++ (l.write depth v ++ more)) := by
  obtain ⟨c, xs, hwrite, hspace, hc⟩ := l.exists_write depth hv
  refine ⟨c, xs ++ more, ?_, hc⟩
  rw [Draft.skipSpace_blank_append (l.blank_gap depth), hwrite, List.cons_append,
    Draft.skipSpace_cons hspace]

/-- Written items begin as the first of them does. -/
theorem begins_writeItems (l : Layout) (depth : Nat) {item : Json} (items : List Json)
    (hitem : Natural item) (more : List Char) :
    Begins (l.writeItems depth (item :: items) ++ more) := by
  cases items with
  | nil =>
      rw [writeItems, List.append_assoc]
      exact l.begins_write depth hitem more
  | cons item' items =>
      rw [writeItems_cons_cons, List.append_assoc, List.append_assoc]
      exact l.begins_write depth hitem _

mutual

/-- **The text of a value is read as the draft of the value**, whatever stands
around it. -/
theorem reads_write {d : Draft} {frames : List Draft.Frame} {rest more : List Char} (l : Layout)
    (depth : Nat) (v : Json) (hv : Natural v) (hmore : Stops more)
    (h : Draft.Reads d rest (some (draft v)) frames more) :
    Draft.Reads d rest none frames (l.write depth v ++ more) := by
  match v with
  | .null => exact .scalar rfl (by decide) (by decide) (by decide) rfl h
  | .bool true => exact .scalar rfl (by decide) (by decide) (by decide) rfl h
  | .bool false => exact .scalar rfl (by decide) (by decide) (by decide) rfl h
  | .number n =>
      obtain ⟨k, rfl⟩ := hv
      rw [write, Numeral.toList_text_ofNat]
      obtain ⟨c, cs, hk, hc⟩ := Numeral.exists_toDigits k
      rw [hk, List.cons_append]
      refine .scalar (scalar_toDigits hk hc hmore) (isSpace_of_isDigit hc)
        (ne_of_isDigit hc (by decide)) (ne_of_isDigit hc (by decide)) rfl h
  | .string text =>
      rw [write, Draft.toList_quote_append]
      refine .scalar ?_ (by decide) (by decide) (by decide) rfl h
      simp [scalar, Quoted.read_flatMap_escape, draft]
  | .array [] =>
      exact .round (.emptyArray (Draft.skipSpace_cons (by decide) _)
        (Draft.skipSpace_cons (by decide) _)) h
  | .array (item :: items) =>
      have hread := reads_writeItems l (depth + 1) [] (item :: items) hv (List.cons_ne_nil _ _)
        (l.blank_gap depth) h
      rw [write_array, List.cons_append, List.append_assoc, List.append_assoc]
      exact .openItems hread (l.begins_writeItems (depth + 1) items hv.1 _)
  | .object [] =>
      exact .round (.emptyObject (Draft.skipSpace_cons (by decide) _)
        (Draft.skipSpace_cons (by decide) _)) h
  | .object (member :: members) =>
      rw [write_object, List.cons_append, List.append_assoc, List.append_assoc]
      exact reads_writeMembers l (depth + 1) [] (member :: members) hv (List.cons_ne_nil _ _)
        (l.blank_gap depth) (fun _ _ => .openMembers (l.blank_gap _)) h

/-- The texts of items are read up to the end of their array. -/
theorem reads_writeItems {d : Draft} {frames : List Draft.Frame} {gap rest more : List Char}
    (l : Layout) (depth : Nat) (done : List Draft) (items : List Json)
    (hitems : NaturalItems items) (hne : items ≠ []) (hgap : Blank gap)
    (h : Draft.Reads d rest (some (.array (done.reverse ++ draftItems items) .closed)) frames more) :
    Draft.Reads d rest none (.array done :: frames)
      (l.writeItems depth items ++ (gap ++ ']' :: more)) := by
  match items with
  | [] => contradiction
  | [item] =>
      rw [writeItems, List.append_assoc]
      refine .of_skipSpace_eq ?_ (Draft.skipSpace_blank_append (l.blank_gap depth) _)
      refine reads_write l depth item hitems.1
        (stops_blank_append hgap (stops_cons (by decide) _)) ?_
      refine .closeItems hgap ?_
      simpa [draftItems] using h
  | item :: item' :: items =>
      rw [writeItems_cons_cons, List.append_assoc, List.append_assoc]
      refine .of_skipSpace_eq ?_ (Draft.skipSpace_blank_append (l.blank_gap depth) _)
      refine reads_write l depth item hitems.1 (stops_cons (by decide) _) ?_
      refine .nextItem ?_ (l.begins_writeItems depth items hitems.2.1 _)
      refine reads_writeItems l depth (draft item :: done) (item' :: items) hitems.2
        (List.cons_ne_nil _ _) hgap ?_
      simpa [draftItems] using h

/-- The texts of members are read up to the end of their object, once the first
key is. -/
theorem reads_writeMembers {d : Draft} {frames : List Draft.Frame} {gap rest more : List Char}
    (l : Layout) (depth : Nat)
    (done : List (Except Fault String × Draft)) (members : List (String × Json))
    (hmembers : NaturalMembers members) (hne : members ≠ []) (hgap : Blank gap)
    {focus : Option Draft} {frames' : List Draft.Frame} {start : Char}
    (hopen : ∀ key tail, Draft.Reads d rest none (.object done (.ok key) :: frames) tail →
      Draft.Reads d rest focus frames'
        (start :: (l.gap depth ++ ((quote key).toList ++ ':' :: tail))))
    (h : Draft.Reads d rest (some (.object (done.reverse ++ draftMembers members) .closed)) frames
      more) :
    Draft.Reads d rest focus frames'
      (start :: (l.writeMembers depth members ++ (gap ++ '\x7d' :: more))) := by
  match members with
  | [] => contradiction
  | [(key, value)] =>
      rw [writeMembers, List.append_assoc, List.append_assoc, List.cons_append, List.append_assoc]
      refine hopen key _ ?_
      refine .of_skipSpace_eq ?_ (Draft.skipSpace_blank_append l.blank_behindColon _)
      refine reads_write l depth value hmembers.1
        (stops_blank_append hgap (stops_cons (by decide) _)) ?_
      refine .closeMembers hgap ?_
      simpa [draftMembers] using h
  | (key, value) :: member :: members =>
      rw [writeMembers_cons_cons, List.append_assoc, List.append_assoc, List.cons_append,
        List.append_assoc, List.append_assoc]
      refine hopen key _ ?_
      refine .of_skipSpace_eq ?_ (Draft.skipSpace_blank_append l.blank_behindColon _)
      refine reads_write l depth value hmembers.1 (stops_cons (by decide) _) ?_
      refine reads_writeMembers l depth ((.ok key, draft value) :: done) (member :: members)
        hmembers.2 (List.cons_ne_nil _ _) hgap (fun _ _ => .nextMember (l.blank_gap _)) ?_
      simpa [draftMembers] using h

end

/-- What is read of the text of a value. -/
theorem read_write (l : Layout) {v : Json} (hv : Natural v) {text : String}
    (htext : text.toList = l.write 0 v) : Draft.read text = (draft v, []) := by
  have hreads := l.reads_write 0 v hv stops_nil .done
  rw [List.append_nil, ← htext] at hreads
  exact hreads.run_eq

end Layout

/-- **The compact form of a value is read back.** -/
theorem read_compact {v : Json} (hv : Natural v) : Draft.read v.compact = (draft v, []) :=
  Layout.compact.read_write hv (toList_compact 0 v)

/-- **The pretty form of a value is read back.** -/
theorem read_pretty {v : Json} (hv : Natural v) : Draft.read v.pretty = (draft v, []) :=
  Layout.pretty.read_write hv (toList_prettyAt 0 v)

end SchemaCatalog.Json
