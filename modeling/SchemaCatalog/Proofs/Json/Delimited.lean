import Mathlib.Data.List.DropRight
import SchemaCatalog.Json.Reader

/-!
# SchemaCatalog.Proofs.Json.Delimited

Arrays and objects in a text end themselves.  If a value is read that begins
with a bracket and ends with the bracket that closes it, then nothing behind
that bracket has been looked at: whatever is appended to the text is left over,
and the value stays the same (`Draft.run_append`).  Of the other values this is
not true, as a number goes on with the digits behind it, but it is true of each
as soon as something stands behind it (`Draft.scalar_append`).
-/

namespace SchemaCatalog.Json

open Text

/-! ## numerals -/

namespace Numeral

section

variable {p : Char → Bool} {cs : List Char}

/-- If something stops the dropping, then what comes later does not matter. -/
theorem dropWhile_append_of_rest (h : cs.dropWhile p ≠ []) (more : List Char) :
    (cs ++ more).dropWhile p = cs.dropWhile p ++ more := by
  rw [List.dropWhile_append, if_neg (by simpa using h)]

/-- If something stops the taking, then what comes later does not matter. -/
theorem takeWhile_append_of_rest (h : cs.dropWhile p ≠ []) (more : List Char) :
    (cs ++ more).takeWhile p = cs.takeWhile p := by
  have hshort : (cs.takeWhile p).length ≠ cs.length := by
    intro hlen
    have hsplit := congrArg List.length (List.takeWhile_append_dropWhile (p := p) (l := cs))
    rw [List.length_append, hlen] at hsplit
    exact h (List.eq_nil_of_length_eq_zero (by omega))
  rw [List.takeWhile_append, if_neg hshort]

end

/-- Digits that end before the text does end the same in a longer one. -/
theorem digitsEnding_append (digits : List Char) {rest : List Char} (h : rest ≠ [])
    (more : List Char) : digitsEnding digits (rest ++ more) = digitsEnding digits rest := by
  cases rest with
  | nil => contradiction
  | cons c rest => rfl

/-- The scan of a text with more behind it. -/
def Scan.append (s : Scan) (more : List Char) : Scan := { s with rest := s.rest ++ more }

/-- A sign is taken alike if more follows. -/
theorem takeSign_append {cs : List Char} (h : (takeSign cs).2 ≠ []) (more : List Char) :
    takeSign (cs ++ more) = ((takeSign cs).1, (takeSign cs).2 ++ more) := by
  cases cs with
  | nil => simp [takeSign] at h
  | cons c cs =>
      by_cases hminus : c = '-'
      · subst hminus
        rfl
      · by_cases hplus : c = '+'
        · subst hplus
          rfl
        · simp [takeSign, hminus, hplus]

/-- An exponent that ends before the text does is scanned alike if more follows. -/
theorem scanExponent_append (n : Numeral) {cs : List Char} (h : (scanExponent n cs).rest ≠ [])
    (more : List Char) : scanExponent n (cs ++ more) = (scanExponent n cs).append more := by
  cases cs with
  | nil => simp [scanExponent] at h
  | cons c cs =>
      rw [scanExponent] at h
      rw [List.cons_append, scanExponent, scanExponent]
      by_cases he : (decide (c = 'e') || decide (c = 'E')) = true
      · rw [if_pos he] at h
        have hsign : (takeSign cs).2 ≠ [] := by
          intro hnil
          simp [hnil] at h
        simp only [if_pos he, takeSign_append hsign, takeWhile_append_of_rest h,
          dropWhile_append_of_rest h, digitsEnding_append _ h]
        rfl
      · simp only [if_neg he]
        rfl

/-- A fraction that ends before the text does is scanned alike if more follows. -/
theorem scanFraction_append (n : Numeral) {cs : List Char} (h : (scanFraction n cs).rest ≠ [])
    (more : List Char) : scanFraction n (cs ++ more) = (scanFraction n cs).append more := by
  cases cs with
  | nil => simp [scanFraction, scanExponent] at h
  | cons c cs =>
      by_cases hdot : c = '.'
      · subst hdot
        rw [scanFraction] at h
        rw [List.cons_append, scanFraction, scanFraction]
        have hrest : cs.dropWhile isDigit ≠ [] := by
          intro hnil
          simp only [hnil] at h
          split at h <;> simp [scanExponent] at h
        simp only [takeWhile_append_of_rest hrest, dropWhile_append_of_rest hrest,
          digitsEnding_append _ hrest]
        cases hending : digitsEnding (cs.takeWhile isDigit) (cs.dropWhile isDigit) with
        | complete =>
            simp only [hending] at h
            exact scanExponent_append _ h more
        | cut => rfl
        | wrong => rfl
      · have hplain : ∀ xs, scanFraction n (c :: xs) = scanExponent n (c :: xs) := by
          intro xs
          rw [scanFraction]
          simpa using hdot
        rw [hplain] at h
        rw [List.cons_append, hplain, hplain]
        exact scanExponent_append n h more

/-- A number that ends before the text does is scanned alike if more follows. -/
theorem scanUnsigned_append (negative : Bool) {cs : List Char}
    (h : (scanUnsigned negative cs).rest ≠ []) (more : List Char) :
    scanUnsigned negative (cs ++ more) = (scanUnsigned negative cs).append more := by
  have hrest : cs.dropWhile isDigit ≠ [] := by
    intro hnil
    simp only [scanUnsigned, hnil] at h
    split at h
    · simp at h
    · split at h
      · simp [scanFraction, scanExponent] at h
      · simp at h
  simp only [scanUnsigned, takeWhile_append_of_rest hrest, dropWhile_append_of_rest hrest,
    digitsEnding_append _ hrest] at h ⊢
  split
  · rfl
  · cases hending : digitsEnding (cs.takeWhile isDigit) (cs.dropWhile isDigit) with
    | complete =>
        simp only [hending] at h
        exact scanFraction_append _ h more
    | cut => rfl
    | wrong => rfl

/-- **A numeral ends** where something stands behind it. -/
theorem scan_append {cs : List Char} (h : (scan cs).rest ≠ []) (more : List Char) :
    scan (cs ++ more) = (scan cs).append more := by
  cases cs with
  | nil => simp [scan, scanUnsigned, digitsEnding] at h
  | cons c cs =>
      by_cases hminus : c = '-'
      · subst hminus
        exact scanUnsigned_append true h more
      · have hplain : ∀ xs, scan (c :: xs) = scanUnsigned false (c :: xs) := by
          intro xs
          rw [scan]
          simpa using hminus
        rw [hplain] at h
        rw [List.cons_append, hplain, hplain]
        exact scanUnsigned_append false h more

theorem takeSign_suffix (cs : List Char) : (takeSign cs).2 <:+ cs := by
  rw [takeSign.eq_def]
  split
  · exact List.suffix_cons _ _
  · exact List.suffix_cons _ _
  · exact List.suffix_refl _

theorem scanExponent_suffix (n : Numeral) (cs : List Char) : (scanExponent n cs).rest <:+ cs := by
  rw [scanExponent.eq_def]
  split
  · exact List.suffix_refl _
  · next c cs =>
    split
    · exact ((List.dropWhile_suffix _).trans (takeSign_suffix cs)).trans (List.suffix_cons c cs)
    · exact List.suffix_refl _

theorem scanFraction_suffix (n : Numeral) (cs : List Char) : (scanFraction n cs).rest <:+ cs := by
  rw [scanFraction.eq_def]
  split
  · next cs =>
    have hdigits : cs.dropWhile isDigit <:+ '.' :: cs :=
      (List.dropWhile_suffix _).trans (List.suffix_cons _ cs)
    simp only
    split
    · exact (scanExponent_suffix _ _).trans hdigits
    · exact hdigits
  · exact scanExponent_suffix n cs

theorem scanUnsigned_suffix (negative : Bool) (cs : List Char) :
    (scanUnsigned negative cs).rest <:+ cs := by
  simp only [scanUnsigned]
  split
  · exact List.dropWhile_suffix _
  · split
    · exact (scanFraction_suffix _ _).trans (List.dropWhile_suffix _)
    · exact List.dropWhile_suffix _

/-- What is left of a scan ends the text. -/
theorem scan_suffix (cs : List Char) : (scan cs).rest <:+ cs := by
  rw [scan.eq_def]
  split
  · next cs => exact (scanUnsigned_suffix true cs).trans (List.suffix_cons _ cs)
  · exact scanUnsigned_suffix false cs

end Numeral

/-! ## quoted texts -/

namespace Quoted

/-- A short escape is one character. -/
theorem scan_escape {e c : Char} (hu : e ≠ 'u') (hc : unescape? e = some c) (done : List Piece)
    (rest : List Char) : scan done ('\\' :: e :: rest) = scan (.char c :: done) rest := by
  rw [scan]
  · simp only [hc]
  · exact fun _ _ _ _ _ h _ => hu h
  · exact hu

/-- A plain character stands for itself. -/
theorem scan_char {c : Char} (hquote : c ≠ '"') (hslash : c ≠ '\\') (hlow : ¬ c.toNat < 0x20)
    (done : List Piece) (rest : List Char) : scan done (c :: rest) = scan (.char c :: done) rest := by
  rw [scan]
  · exact if_neg hlow
  · exact hquote
  · exact fun h _ => hslash h
  · exact fun _ _ _ _ _ h _ => hslash h
  · exact fun _ h _ => hslash h
  · exact fun _ _ h _ => hslash h

/-- **A quoted text ends** with its closing quote. -/
theorem scan_append {done pieces : List Piece} {cs rest : List Char}
    (h : scan done cs = (pieces, none, rest)) (more : List Char) :
    scan done (cs ++ more) = (pieces, none, rest ++ more) := by
  fun_induction scan done cs with
  | case1 done => simp at h
  | case2 done rest' =>
      obtain ⟨rfl, rfl⟩ : done = pieces ∧ rest' = rest := by simpa using h
      rw [List.cons_append, scan]
  | case3 done => simp at h
  | case4 done a b c d rest' unit hunit ih =>
      simp only [List.cons_append, scan, hunit]
      exact ih h
  | case5 => simp at h
  | case6 => simp at h
  | case7 done e rest' _ hu c hc ih =>
      rw [List.cons_append, List.cons_append, scan_escape hu hc]
      exact ih h
  | case8 => simp at h
  | case9 => simp at h
  | case10 done c rest' hquote halone _ _ hescape hlow ih =>
      have hslash : c ≠ '\\' := by
        intro hc
        cases rest' with
        | nil => exact halone hc rfl
        | cons e rest' => exact hescape e rest' hc rfl
      rw [List.cons_append, scan_char hquote hslash hlow]
      exact ih h

/-- A string that is closed is read alike if more follows. -/
theorem read_append {cs : List Char} (h : (read cs).fault = none) (more : List Char) :
    read (cs ++ more) = { read cs with rest := (read cs).rest ++ more } := by
  cases hscan : scan [] cs with
  | mk done outcome =>
      obtain ⟨fault, rest⟩ := outcome
      rw [read, hscan] at h
      obtain rfl : fault = none := h
      rw [read, read, hscan, scan_append hscan]

theorem scan_suffix (done : List Piece) (cs : List Char) : (scan done cs).2.2 <:+ cs := by
  fun_induction scan done cs with
  | case1 => exact List.suffix_refl _
  | case2 => exact List.suffix_cons _ _
  | case4 _ a b c d _ _ _ ih => exact ih.trans ⟨['\\', 'u', a, b, c, d], rfl⟩
  | case7 _ e _ _ _ _ _ ih => exact ih.trans ⟨['\\', e], rfl⟩
  | case10 _ c _ _ _ _ _ _ _ ih => exact ih.trans (List.suffix_cons c _)
  | _ => exact List.nil_suffix

/-- What is left behind a string ends the text. -/
theorem read_suffix (cs : List Char) : (read cs).rest <:+ cs := scan_suffix [] cs

end Quoted

/-! ## values -/

namespace Draft

theorem skipSpace_append {cs : List Char} (h : skipSpace cs ≠ []) (more : List Char) :
    skipSpace (cs ++ more) = skipSpace cs ++ more :=
  Numeral.dropWhile_append_of_rest h more

theorem skipSpace_append_of_eq {cs rest : List Char} {c : Char} (h : skipSpace cs = c :: rest)
    (more : List Char) : skipSpace (cs ++ more) = c :: (rest ++ more) := by
  rw [skipSpace_append (by simp [h]), h, List.cons_append]

/-- A word that is there is there if more follows. -/
theorem expect_append {ws cs : List Char} (h : expect ws cs = none) (more : List Char) :
    expect ws (cs ++ more) = none := by
  induction ws generalizing cs with
  | nil => rfl
  | cons w ws ih =>
      cases cs with
      | nil => simp [expect] at h
      | cons c cs =>
          rw [expect] at h
          rw [List.cons_append, expect]
          split at h
          · next hw => rw [if_pos hw, ih h]
          · contradiction

/-- A word that is there is no longer than the text. -/
theorem length_le_of_expect {ws cs : List Char} (h : expect ws cs = none) :
    ws.length ≤ cs.length := by
  induction ws generalizing cs with
  | nil => exact Nat.zero_le _
  | cons w ws ih =>
      cases cs with
      | nil => simp [expect] at h
      | cons c cs =>
          rw [expect] at h
          split at h
          · simpa using ih h
          · contradiction

def readWord (ws : List Char) (d : Draft) (cs : List Char) : Draft × List Char :=
  match expect ws cs with
  | none => (d, cs.drop ws.length)
  | some f => (word f, [])

/-- A word ends with its last letter. -/
theorem readWord_append {ws cs : List Char} {d : Draft} (h : (readWord ws d cs).2 ≠ [])
    (more : List Char) :
    readWord ws d (cs ++ more) = ((readWord ws d cs).1, (readWord ws d cs).2 ++ more) := by
  cases hword : expect ws cs with
  | none =>
      simp only [readWord, hword, expect_append hword,
        List.drop_append_of_le_length (length_le_of_expect hword)]
  | some f => simp [readWord, hword] at h

/-- **A scalar ends** where something stands behind it. -/
theorem scalar_append {c : Char} {rest : List Char} (h : (scalar c rest).1.fault? = none)
    (hrest : (scalar c rest).2 ≠ []) (more : List Char) :
    scalar c (rest ++ more) = ((scalar c rest).1, (scalar c rest).2 ++ more) := by
  by_cases hquote : c = '"'
  · simp only [scalar, if_pos hquote] at h ⊢
    have hread : (Quoted.read rest).fault = none := h
    rw [Quoted.read_append hread]
  by_cases hdigit : (decide (c = '-') || isDigit c) = true
  · simp only [scalar, if_neg hquote, if_pos hdigit] at hrest ⊢
    rw [← List.cons_append, Numeral.scan_append hrest, Numeral.Scan.append]
  by_cases hn : c = 'n'
  · simp only [scalar, if_neg hquote, if_neg hdigit, if_pos hn] at hrest ⊢
    exact readWord_append hrest more
  by_cases ht : c = 't'
  · simp only [scalar, if_neg hquote, if_neg hdigit, if_neg hn, if_pos ht] at hrest ⊢
    exact readWord_append hrest more
  by_cases hf : c = 'f'
  · simp only [scalar, if_neg hquote, if_neg hdigit, if_neg hn, if_neg ht, if_pos hf] at hrest ⊢
    exact readWord_append hrest more
  · simp only [scalar, if_neg hquote, if_neg hdigit, if_neg hn, if_neg ht, if_neg hf] at hrest
    contradiction

/-- A key ends with its colon. -/
theorem readKey_append {members : List (Except Fault String × Draft)} {rest tail : List Char}
    {key : Except Fault String} (h : readKey members rest = .ok (key, tail)) (more : List Char) :
    readKey members (rest ++ more) = .ok (key, tail ++ more) := by
  simp only [readKey] at h ⊢
  split at h
  · contradiction
  · next hfault =>
    split at h
    · next rest' hcolon =>
      obtain ⟨rfl, rfl⟩ := Prod.mk.inj (Except.ok.inj h)
      simp only [Quoted.read_append hfault, hfault, skipSpace_append_of_eq hcolon]
    · contradiction
    · contradiction

theorem skipSpace_suffix {cs rest : List Char} (h : skipSpace cs = rest) : rest <:+ cs :=
  h ▸ List.dropWhile_suffix isSpace

theorem suffix_of_skipSpace {cs rest : List Char} {c : Char} (h : skipSpace cs = c :: rest) :
    rest <:+ cs :=
  (List.suffix_cons c rest).trans (skipSpace_suffix h)

/-- What is left behind a scalar ends the text. -/
theorem scalar_suffix (c : Char) (rest : List Char) : (scalar c rest).2 <:+ c :: rest := by
  have hbehind : ∀ {xs : List Char}, xs <:+ rest → xs <:+ c :: rest :=
    fun h => h.trans (List.suffix_cons c rest)
  rw [scalar]
  repeat' split
  all_goals first
    | exact hbehind (Quoted.read_suffix rest)
    | exact Numeral.scan_suffix (c :: rest)
    | exact hbehind (List.drop_suffix _ rest)
    | exact List.nil_suffix

/-- What is left behind a key ends the text. -/
theorem readKey_suffix {members : List (Except Fault String × Draft)} {rest tail : List Char}
    {key : Except Fault String} (h : readKey members rest = .ok (key, tail)) : tail <:+ rest := by
  simp only [readKey] at h
  split at h
  · contradiction
  · split at h
    · next rest' hcolon =>
      obtain ⟨-, rfl⟩ := Prod.mk.inj (Except.ok.inj h)
      exact (suffix_of_skipSpace hcolon).trans (Quoted.read_suffix rest)
    · contradiction
    · contradiction

/-- The value is an array or object with the bracket that closes it. -/
def Sealed : Draft → Prop
  | array _ .closed | object _ .closed => True
  | _ => False

/-- What is left open is not sealed. -/
theorem not_sealed_unwind {d : Draft} (h : ¬ d.Sealed) (frames : List Frame) :
    ¬ (unwind d frames).Sealed := by
  induction frames generalizing d with
  | nil => exact h
  | cons frame frames ih =>
      cases frame with
      | array items => exact ih id
      | object members key => exact ih id

/-- A key that cannot be read leaves its object open. -/
theorem not_sealed_of_readKey {members : List (Except Fault String × Draft)} {rest : List Char}
    {d : Draft} (h : readKey members rest = .error d) : ¬ d.Sealed := by
  simp only [readKey] at h
  split at h
  · obtain rfl := Except.error.inj h
    exact id
  · split at h
    · contradiction
    · obtain rfl := Except.error.inj h
      exact id
    · obtain rfl := Except.error.inj h
      exact id

/-- A scalar is not sealed. -/
theorem not_sealed_scalar (c : Char) (rest : List Char) : ¬ (scalar c rest).1.Sealed := by
  rw [scalar]
  repeat' split
  all_goals exact id

/-! ## the loop -/

/-- One round of the loop that goes on: what it does to the focus, the open
arrays and objects, and the text. -/
inductive Round : Option Draft → List Frame → List Char →
    Option Draft → List Frame → List Char → Prop
  | emptyArray {frames : List Frame} {cs rest rest' : List Char} (here : skipSpace cs = '[' :: rest)
    (inside : skipSpace rest = ']' :: rest') :
    Round none frames cs (some (.array [] .closed)) frames rest'
  | openArray {frames : List Frame} {cs rest rest' : List Char} {c : Char}
    (here : skipSpace cs = '[' :: rest) (inside : skipSpace rest = c :: rest') (hc : c ≠ ']') :
    Round none frames cs none (.array [] :: frames) (c :: rest')
  | emptyObject {frames : List Frame} {cs rest rest' : List Char}
    (here : skipSpace cs = '\x7b' :: rest) (inside : skipSpace rest = '\x7d' :: rest') :
    Round none frames cs (some (.object [] .closed)) frames rest'
  | openObject {frames : List Frame} {cs rest rest' tail : List Char} {key : Except Fault String}
    (here : skipSpace cs = '\x7b' :: rest) (inside : skipSpace rest = '"' :: rest')
    (hkey : readKey [] rest' = .ok (key, tail)) :
    Round none frames cs none (.object [] key :: frames) tail
  | readScalar {frames : List Frame} {cs rest : List Char} {c : Char} (here : skipSpace cs = c :: rest)
    (harray : c ≠ '[') (hobject : c ≠ '\x7b') (hfault : (scalar c rest).1.fault? = none) :
    Round none frames cs (some (scalar c rest).1) frames (scalar c rest).2
  | closeArray {d : Draft} {items : List Draft} {frames : List Frame} {cs rest : List Char}
    (here : skipSpace cs = ']' :: rest) :
    Round (some d) (.array items :: frames) cs (some (.array (d :: items).reverse .closed)) frames
      rest
  | nextItem {d : Draft} {items : List Draft} {frames : List Frame} {cs rest rest' : List Char}
    {c : Char} (here : skipSpace cs = ',' :: rest) (inside : skipSpace rest = c :: rest')
    (hc : c ≠ ']') :
    Round (some d) (.array items :: frames) cs none (.array (d :: items) :: frames) (c :: rest')
  | closeObject {d : Draft} {members : List (Except Fault String × Draft)}
    {key : Except Fault String} {frames : List Frame} {cs rest : List Char}
    (here : skipSpace cs = '\x7d' :: rest) :
    Round (some d) (.object members key :: frames) cs
      (some (.object ((key, d) :: members).reverse .closed)) frames rest
  | nextMember {d : Draft} {members : List (Except Fault String × Draft)}
    {key key' : Except Fault String} {frames : List Frame} {cs rest rest' tail : List Char}
    (here : skipSpace cs = ',' :: rest) (inside : skipSpace rest = '"' :: rest')
    (hkey : readKey ((key, d) :: members) rest' = .ok (key', tail)) :
    Round (some d) (.object members key :: frames) cs none
      (.object ((key, d) :: members) key' :: frames) tail

section

variable {focus focus' : Option Draft} {frames frames' : List Frame} {cs cs' : List Char}

/-- The loop goes on as a round says. -/
theorem Round.run_eq (h : Round focus frames cs focus' frames' cs') :
    run focus frames cs = run focus' frames' cs' := by
  -- of the branches of the loop, all but one contradict what the round says stands there
  fun_cases run focus frames cs <;> cases h <;> grind

/-- What is left of the text is the end of it. -/
theorem Round.suffix (h : Round focus frames cs focus' frames' cs') : cs' <:+ cs := by
  cases h with
  | emptyArray here inside => exact (suffix_of_skipSpace inside).trans (suffix_of_skipSpace here)
  | openArray here inside _ =>
      exact (skipSpace_suffix inside).trans (suffix_of_skipSpace here)
  | emptyObject here inside => exact (suffix_of_skipSpace inside).trans (suffix_of_skipSpace here)
  | openObject here inside hkey =>
      exact ((readKey_suffix hkey).trans (suffix_of_skipSpace inside)).trans
        (suffix_of_skipSpace here)
  | @readScalar _ _ rest c here _ _ _ =>
      exact (scalar_suffix c rest).trans (skipSpace_suffix here)
  | closeArray here => exact suffix_of_skipSpace here
  | nextItem here inside _ =>
      exact (skipSpace_suffix inside).trans (suffix_of_skipSpace here)
  | closeObject here => exact suffix_of_skipSpace here
  | nextMember here inside hkey =>
      exact ((readKey_suffix hkey).trans (suffix_of_skipSpace inside)).trans
        (suffix_of_skipSpace here)

/-- More text behind changes nothing about a round, unless it is a scalar behind
which nothing stands. -/
theorem Round.append (h : Round focus frames cs focus' frames' cs')
    (hend : cs' = [] → ∃ d, focus' = some d ∧ d.Sealed) (more : List Char) :
    Round focus frames (cs ++ more) focus' frames' (cs' ++ more) := by
  cases h with
  | emptyArray here inside =>
      exact .emptyArray (skipSpace_append_of_eq here more) (skipSpace_append_of_eq inside more)
  | openArray here inside hc =>
      exact .openArray (skipSpace_append_of_eq here more) (skipSpace_append_of_eq inside more) hc
  | emptyObject here inside =>
      exact .emptyObject (skipSpace_append_of_eq here more) (skipSpace_append_of_eq inside more)
  | openObject here inside hkey =>
      exact .openObject (skipSpace_append_of_eq here more) (skipSpace_append_of_eq inside more)
        (readKey_append hkey more)
  | @readScalar _ _ rest c here harray hobject hfault =>
      have hrest : (scalar c rest).2 ≠ [] := by
        intro hnil
        obtain ⟨d, hd, hsealed⟩ := hend hnil
        obtain rfl := Option.some.inj hd
        exact not_sealed_scalar c rest hsealed
      have happend := scalar_append hfault hrest more
      have hround : Round none frames (cs ++ more) (some (scalar c (rest ++ more)).1) frames
          (scalar c (rest ++ more)).2 :=
        .readScalar (skipSpace_append_of_eq here more) harray hobject (by rw [happend]; exact hfault)
      rwa [happend] at hround
  | closeArray here => exact .closeArray (skipSpace_append_of_eq here more)
  | nextItem here inside hc =>
      exact .nextItem (skipSpace_append_of_eq here more) (skipSpace_append_of_eq inside more) hc
  | closeObject here => exact .closeObject (skipSpace_append_of_eq here more)
  | nextMember here inside hkey =>
      exact .nextMember (skipSpace_append_of_eq here more) (skipSpace_append_of_eq inside more)
        (readKey_append hkey more)

end

/-- The loop goes round until the value `d` has been read and the text `rest` is
left over. -/
inductive Reads (d : Draft) (rest : List Char) :
    Option Draft → List Frame → List Char → Prop
  | done : Reads d rest (some d) [] rest
  | round {focus focus' : Option Draft} {frames frames' : List Frame} {cs cs' : List Char}
    (h : Round focus frames cs focus' frames' cs') (hrest : Reads d rest focus' frames' cs') :
    Reads d rest focus frames cs

section

variable {d : Draft} {focus : Option Draft} {frames : List Frame} {cs rest : List Char}

/-- What reads one way is what the run returns. -/
theorem Reads.run_eq (h : Reads d rest focus frames cs) : run focus frames cs = (d, rest) := by
  induction h with
  | done => rw [run.eq_def]
  | round h _ ih => rw [h.run_eq, ih]

/-- What is left of a run ends the text. -/
theorem Reads.suffix (h : Reads d rest focus frames cs) : rest <:+ cs := by
  induction h with
  | done => exact List.suffix_refl _
  | round h _ ih => exact ih.trans h.suffix

/-- When the text is at its end, the value has been read. -/
theorem Reads.of_nil (h : Reads d rest focus frames []) : focus = some d := by
  cases h with
  | done => rfl
  | round h _ => cases h <;> contradiction

/-- **More text behind** a sealed value is left over. -/
theorem Reads.append (h : Reads d rest focus frames cs) (hd : d.Sealed) (more : List Char) :
    Reads d (rest ++ more) focus frames (cs ++ more) := by
  induction h with
  | done => exact .done
  | round h hrest ih =>
      refine .round (h.append ?_ more) ih
      rintro rfl
      exact ⟨d, hrest.of_nil, hd⟩

/-- The loop ends with a sealed value only if it goes round until it has read it. -/
theorem reads_of_run (h : run focus frames cs = (d, rest)) (hd : d.Sealed) :
    Reads d rest focus frames cs := by
  have hopen : ∀ {e : Draft} {frames : List Frame}, ¬ e.Sealed →
      (unwind e frames, ([] : List Char)) ≠ (d, rest) := by
    intro e frames he heq
    exact not_sealed_unwind he frames ((Prod.mk.inj heq).1 ▸ hd)
  fun_induction run focus frames cs with
  | case2 _ _ _ _ inside here ih => exact .round (.emptyArray here inside) (ih h)
  | case4 _ _ _ _ _ hc inside here ih => exact .round (.openArray here inside hc) (ih h)
  | case5 _ _ _ _ inside here _ ih => exact .round (.emptyObject here inside) (ih h)
  | case6 _ _ _ _ inside _ _ hkey here _ ih => exact .round (.openObject here inside hkey) (ih h)
  | case7 _ _ _ _ _ _ hkey => exact absurd h (hopen (not_sealed_of_readKey hkey))
  | case10 _ _ _ _ here harray hobject _ hfault ih =>
      exact .round (.readScalar here harray hobject hfault) (ih h)
  | case11 _ _ c rest => exact absurd h (hopen (not_sealed_scalar c rest))
  | case12 =>
      obtain ⟨rfl, rfl⟩ := Prod.mk.inj h
      exact .done
  | case13 _ _ _ _ _ _ here ih => exact .round (.closeArray here) (ih h)
  | case16 _ _ _ _ _ _ _ hc inside here _ ih => exact .round (.nextItem here inside hc) (ih h)
  | case19 _ _ _ _ _ _ _ here ih => exact .round (.closeObject here) (ih h)
  | case21 _ _ _ _ _ _ _ inside _ _ hkey here _ ih =>
      exact .round (.nextMember here inside hkey) (ih h)
  | case22 _ _ _ _ _ _ _ _ _ hkey => exact absurd h (hopen (not_sealed_of_readKey hkey))
  | _ => exact absurd h (hopen id)

/-- **A sealed value ends itself**: what stands behind it makes no difference to
it and is left over. -/
theorem run_append (h : run focus frames cs = (d, rest)) (hd : d.Sealed) (more : List Char) :
    run focus frames (cs ++ more) = (d, rest ++ more) :=
  ((reads_of_run h hd).append hd more).run_eq

/-- A sealed value begins with its opening bracket. -/
theorem Reads.bracket (h : Reads d rest none [] cs) (hd : d.Sealed) :
    ∃ xs, skipSpace cs = '[' :: xs ∨ skipSpace cs = '\x7b' :: xs := by
  cases h with
  | round h hrest =>
      cases h with
      | emptyArray here => exact ⟨_, .inl here⟩
      | openArray here => exact ⟨_, .inl here⟩
      | emptyObject here => exact ⟨_, .inr here⟩
      | openObject here => exact ⟨_, .inr here⟩
      | @readScalar _ _ rest c here =>
          cases hrest with
          | done => exact absurd hd (not_sealed_scalar c rest)
          | round h _ => cases h

/-- Blanks in front of a value make no difference. -/
theorem Reads.of_skipSpace_eq {cs' : List Char} (h : Reads d rest none frames cs)
    (heq : skipSpace cs' = skipSpace cs) : Reads d rest none frames cs' := by
  cases h with
  | round h hrest =>
      refine .round ?_ hrest
      cases h with
      | emptyArray here inside => exact .emptyArray (heq.trans here) inside
      | openArray here inside hc => exact .openArray (heq.trans here) inside hc
      | emptyObject here inside => exact .emptyObject (heq.trans here) inside
      | openObject here inside hkey => exact .openObject (heq.trans here) inside hkey
      | readScalar here harray hobject hfault =>
          exact .readScalar (heq.trans here) harray hobject hfault

end

/-! ## blanks around a value -/

theorem skipSpace_append_of_nil {cs : List Char} (h : skipSpace cs = []) (more : List Char) :
    skipSpace (cs ++ more) = skipSpace more := by
  rw [skipSpace, List.dropWhile_append, if_pos (by simpa [skipSpace] using h), skipSpace]

/-- A text without anything but blanks. -/
def Blank (cs : List Char) : Prop := ∀ c ∈ cs, isSpace c = true

/-- A text is blank if skipping its space leaves nothing. -/
theorem blank_iff {cs : List Char} : Blank cs ↔ skipSpace cs = [] := by
  rw [Blank, skipSpace, List.dropWhile_eq_nil_iff]

end Draft

/-- The texts are the same, blanks in front and behind apart. -/
def SameButBlanks (cs cs' : List Char) : Prop :=
  ∃ core before after before' after' : List Char,
    cs = before ++ core ++ after ∧ cs' = before' ++ core ++ after' ∧
    Draft.Blank before ∧ Draft.Blank after ∧ Draft.Blank before' ∧ Draft.Blank after'

namespace Draft

/-- Texts that agree up to the space at both ends differ in blanks only. -/
theorem sameButBlanks_of_skipSpace_eq {used used' rest rest' : List Char}
    (hused : skipSpace used = skipSpace used') (hrest : skipSpace rest = [])
    (hrest' : skipSpace rest' = []) : SameButBlanks (used ++ rest) (used' ++ rest') := by
  have hblank : ∀ cs : List Char, Blank (cs.takeWhile isSpace) :=
    fun cs c hc => List.mem_takeWhile_imp hc
  have hsplit : ∀ cs : List Char, cs = cs.takeWhile isSpace ++ skipSpace cs :=
    fun cs => List.takeWhile_append_dropWhile.symm
  refine ⟨skipSpace used, used.takeWhile isSpace, rest, used'.takeWhile isSpace, rest', ?_, ?_,
    hblank used, blank_iff.mpr hrest, hblank used', blank_iff.mpr hrest'⟩
  · rw [← hsplit]
  · rw [hused, ← hsplit]

/-- **Two values with text behind them**: if the texts begin with a sealed value
each and are the same but for blanks in front, then so are the values, and so
is what stands behind them. -/
theorem Reads.same {d d' : Draft} {cs cs' rest rest' more more' : List Char}
    (h : Reads d rest none [] cs) (h' : Reads d' rest' none [] cs') (hd : d.Sealed)
    (hd' : d'.Sealed) (hrest : skipSpace rest = []) (hrest' : skipSpace rest' = [])
    (heq : skipSpace (cs ++ more) = skipSpace (cs' ++ more')) :
    d = d' ∧ SameButBlanks cs cs' ∧ skipSpace more = skipSpace more' := by
  have hboth := (h.append hd more).of_skipSpace_eq heq.symm
  obtain ⟨rfl, hmore⟩ := Prod.mk.inj (hboth.run_eq.symm.trans (h'.append hd' more').run_eq)
  refine ⟨rfl, ?_, ?_⟩
  · obtain ⟨used, rfl⟩ := h.suffix
    obtain ⟨used', rfl⟩ := h'.suffix
    have hne : ∀ {xs ys : List Char}, Reads d ys none [] (xs ++ ys) → skipSpace ys = [] →
        skipSpace xs ≠ [] := by
      intro xs ys hreads hys hxs
      obtain ⟨zs, hz | hz⟩ := hreads.bracket hd
      · rw [skipSpace_append_of_nil hxs, hys] at hz
        contradiction
      · rw [skipSpace_append_of_nil hxs, hys] at hz
        contradiction
    rw [List.append_assoc, List.append_assoc, skipSpace_append (hne h hrest),
      skipSpace_append (hne h' hrest'), hmore] at heq
    exact sameButBlanks_of_skipSpace_eq (List.append_cancel_right heq) hrest hrest'
  · rw [← skipSpace_append_of_nil hrest more, hmore, skipSpace_append_of_nil hrest' more']

end Draft

/-! ## readers -/

namespace Reader

variable {α σ : Type}

theorem eq_closed {ending : Ending} (h : ending.fault? = none) : ending = .closed := by
  cases ending with
  | closed => rfl
  | broken f => contradiction
  | afterComma f => contradiction
  | notAKey f => contradiction

/-- An array that is read as a record is closed. -/
theorem closed_of_positions {ending : Ending} {fields : List (RecordField σ)} {s s' : σ}
    {items : List Draft} (h : positions ending fields s items = .ok s') : ending = .closed := by
  induction items generalizing fields s with
  | nil =>
      cases fields with
      | nil =>
          cases ending with
          | closed => rfl
          | broken f => contradiction
          | afterComma f => contradiction
          | notAKey f => contradiction
      | cons field fields =>
          rw [positions, close] at h
          split at h
          · next hfault => exact eq_closed hfault
          · contradiction
  | cons d items ih =>
      cases fields with
      | nil => contradiction
      | cons field fields =>
          rw [positions] at h
          split at h
          · contradiction
          · exact ih h

/-- A record stands in brackets that are closed. -/
theorem sealed_of_record {fields : List (RecordField σ)} {start : σ} {finish : σ → Option α}
    {d : Draft} {a : α} (h : record fields start finish d = .ok a) : d.Sealed := by
  cases d with
  | object ms ending =>
      rw [record] at h
      split at h
      · contradiction
      · split at h
        · contradiction
        · next hfault =>
          obtain rfl := eq_closed hfault
          exact trivial
  | array items ending =>
      rw [record] at h
      split at h
      · contradiction
      · next hpositions =>
        obtain rfl := closed_of_positions hpositions
        exact trivial
  | null => contradiction
  | bool value => contradiction
  | number numeral ending => contradiction
  | string text fault => contradiction
  | word fault => contradiction
  | absent fault => contradiction

end Reader

section

variable {α : Type} {r : Reader α}

/-- What decoding a text comes to, if the reader takes sealed values only. -/
theorem exists_reads_of_decode (hr : ∀ d a, r d = .ok a → d.Sealed) {text : String} {a : α}
    (h : decode r text = .ok a) :
    ∃ d rest, Draft.Reads d rest none [] text.toList ∧ d.Sealed ∧ r d = .ok a ∧
      Draft.skipSpace rest = [] := by
  cases hread : Draft.read text with
  | mk d rest =>
      rw [decode, hread] at h
      simp only at h
      split at h
      · contradiction
      · next b hb =>
        split at h
        · next hrest =>
          obtain rfl := Except.ok.inj h
          have hd := hr d b hb
          exact ⟨d, rest, Draft.reads_of_run hread hd, hd, hb, List.isEmpty_iff.mp hrest⟩
        · contradiction

/-- **Texts in a row**: if texts that decode stand at the beginning of two rows
that are the same, blanks in front apart, then they are the same but for
blanks, decode to the same, and the rest of the rows is the same as well. -/
theorem same_of_decode (hr : ∀ d a, r d = .ok a → d.Sealed) {text text' : String} {a a' : α}
    (h : decode r text = .ok a) (h' : decode r text' = .ok a') {more more' : List Char}
    (heq : Draft.skipSpace (text.toList ++ more) = Draft.skipSpace (text'.toList ++ more')) :
    SameButBlanks text.toList text'.toList ∧ a = a' ∧
      Draft.skipSpace more = Draft.skipSpace more' := by
  obtain ⟨d, rest, hreads, hd, hread, hrest⟩ := exists_reads_of_decode hr h
  obtain ⟨d', rest', hreads', hd', hread', hrest'⟩ := exists_reads_of_decode hr h'
  obtain ⟨rfl, hsame, hmore⟩ := hreads.same hreads' hd hd' hrest hrest' heq
  exact ⟨hsame, Except.ok.inj (hread.symm.trans hread'), hmore⟩

/-- A text that decodes begins with a bracket, blanks in front apart. -/
theorem bracket_of_decode (hr : ∀ d a, r d = .ok a → d.Sealed) {text : String} {a : α}
    (h : decode r text = .ok a) (more : List Char) :
    ∃ xs, Draft.skipSpace (text.toList ++ more) = '[' :: xs ∨
      Draft.skipSpace (text.toList ++ more) = '\x7b' :: xs := by
  obtain ⟨d, rest, hreads, hd, -⟩ := exists_reads_of_decode hr h
  exact (hreads.append hd more).bracket hd

end

end SchemaCatalog.Json
