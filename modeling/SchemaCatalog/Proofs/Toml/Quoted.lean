import SchemaCatalog.Toml.Writer

/-!
# SchemaCatalog.Proofs.Toml.Quoted

A text that is written is read back (`takeText_writeText`), in whichever of the
four kinds of quotes it stands, and so is a key (`takeKeyPart_writeKey`).

What is delicate are quotes inside a text of several lines.  Up to two of them
may stand side by side, also right in front of the three that end the text, so
a reader that meets three quotes has to look whether one or two more follow.
-/

namespace SchemaCatalog.Toml

open Text (hexadecimal? hexValue? hexDigit toHex ofDigits)

variable {lines : Bool} {done rest : List Char} {c : Char}

attribute [local simp] takeQuoted takeLiteral

/-! ## Characters in double quotes -/

/-- The ways to write a character in double quotes, except that quotes may also
stand for themselves in a text of several lines. -/
inductive Escape (lines : Bool) (c : Char) : List Char → Prop
  | letter {e : Char} (h : unescape? e = some c) : Escape lines c ['\\', e]
  | newline (hlines : lines = true) (h : c = '\n') : Escape lines c ['\n']
  | plain (hplain : isPlain c = true) (hslash : c ≠ '\\') (hquote : c ≠ '"') : Escape lines c [c]
  | number {x₁ x₂ x₃ x₄ : Char} (h : charOf? [x₁, x₂, x₃, x₄] = some c) :
      Escape lines c ['\\', 'u', x₁, x₂, x₃, x₄]

/-- A number below 65536 is written in four digits, and they stand for the
number. -/
theorem hexadecimal?_upperHex {n : Nat} (h : n < 0x10000) :
    ∃ x₁ x₂ x₃ x₄, upperHex n = [x₁, x₂, x₃, x₄] ∧ hexadecimal? [x₁, x₂, x₃, x₄] = some n := by
  have hdigit : ∀ d < 16, hexValue? (hexDigit d).toUpper = some d := by decide
  have hwritten : upperHex n = [hexDigit (n >>> 12 % 16), hexDigit (n >>> 8 % 16),
      hexDigit (n >>> 4 % 16), hexDigit (n % 16)].map Char.toUpper := by
    rw [upperHex, toHex, String.toList_ofList]
    rfl
  refine ⟨_, _, _, _, hwritten, ?_⟩
  simp only [hexadecimal?, List.mapM_cons, List.mapM_nil, hdigit _ (Nat.mod_lt _ (by decide)),
    Nat.shiftRight_eq_div_pow]
  simp [ofDigits]
  omega

theorem charOf?_of_hexadecimal? {c : Char} {digits : List Char}
    (h : hexadecimal? digits = some c.toNat) : charOf? digits = some c := by
  have hvalid : c.toNat.isValidChar := c.valid
  rw [charOf?, h, Option.bind_some, dif_pos hvalid]
  rfl

/-- A character other than a quote is written in one of these ways. -/
theorem escape_escape (lines : Bool) (hquote : c ≠ '"') : Escape lines c (escape lines c) := by
  unfold escape
  split
  · next h => exact .letter (by rw [h]; rfl)
  split
  · next h => exact .letter (by rw [h]; rfl)
  split
  · next h =>
      cases lines with
      | false => exact .letter (by rw [h]; rfl)
      | true => exact .newline rfl h
  split
  · next h => exact .letter (by rw [h]; rfl)
  split
  · next h => exact .letter (by rw [h]; rfl)
  split
  · next h => exact .letter (by rw [h]; rfl)
  rename_i hslash
  split
  · next hplain => exact .plain hplain hslash hquote
  · next hplain =>
      have hsmall : c.toNat < 0x10000 := by
        simp [isPlain] at hplain
        omega
      obtain ⟨x₁, x₂, x₃, x₄, hdigits, hchar⟩ := hexadecimal?_upperHex hsmall
      rw [hdigits]
      exact .number (charOf?_of_hexadecimal? hchar)

namespace Escape

variable {cs : List Char}

/-- In each of these ways, a character is read as itself. -/
theorem takeQuoted (h : Escape lines c cs) :
    takeQuoted lines false done (cs ++ rest) = takeQuoted lines false (c :: done) rest := by
  cases h with
  | letter h =>
      rename_i e
      have hfour : e ≠ 'u' := by rintro rfl; contradiction
      have height : e ≠ 'U' := by rintro rfl; contradiction
      simp [h, hfour, height]
  | newline hlines h => simp [hlines, h]
  | plain hplain hslash hquote =>
      have hreturn : c ≠ '\r' := by rintro rfl; contradiction
      have hnewline : ¬ c = '\n' := by rintro rfl; contradiction
      simp [hplain, hquote, hslash, hreturn]
  | number h => simp [h]

/-- None of these ways begins with a quote, or with a line end that does not
belong to the text. -/
theorem eq_cons (h : Escape lines c cs) :
    ∃ d more, cs = d :: more ∧ d ≠ '"' ∧ d ≠ '\r' ∧ (d = '\n' → c = '\n') := by
  cases h with
  | letter => exact ⟨_, _, rfl, by decide, by decide, fun h => absurd h (by decide)⟩
  | newline _ h => exact ⟨_, _, rfl, by decide, by decide, fun _ => h⟩
  | plain hplain _ hquote => exact ⟨_, _, rfl, hquote, by rintro rfl; contradiction, id⟩
  | number => exact ⟨_, _, rfl, by decide, by decide, fun h => absurd h (by decide)⟩

end Escape

/-- A character that is no quote is escaped by itself and ends a run of quotes. -/
theorem escapeAll_cons (lines : Bool) (run : Nat) (hquote : c ≠ '"') (cs : List Char) :
    escapeAll lines run (c :: cs) = escape lines c ++ escapeAll lines 0 cs := by
  rw [escapeAll]
  simpa using hquote

/-- A quote that may not stand as it is gets a backslash. -/
theorem escapeAll_quote {run : Nat} (h : (lines && run < 2) = false) (cs : List Char) :
    escapeAll lines run ('"' :: cs) = ['\\', '"'] ++ escapeAll lines 0 cs := by
  rw [escapeAll, h]
  rfl

/-- The first two quotes of a run may stand as they are between three. -/
theorem escapeAll_raw {run : Nat} (h : run < 2) (cs : List Char) :
    escapeAll true run ('"' :: cs) = '"' :: escapeAll true (run + 1) cs := by
  simp [escapeAll, h]

/-! ## Texts in double quotes -/

/-- A quote ends a text of one line. -/
theorem takeQuoted_end :
    takeQuoted false false done ('"' :: rest) = some (String.ofList done.reverse, rest) := by
  by_cases h : ∃ more, rest = '"' :: '"' :: more
  · obtain ⟨more, rfl⟩ := h
    rw [takeQuoted.eq_def]
    simp
  · have hrest : ∀ more, rest ≠ '"' :: '"' :: more := fun more he => h ⟨more, he⟩
    simp

/-- What is escaped on one line is read back up to the closing quote. -/
theorem takeQuoted_escapeAll_line (cs : List Char) (run : Nat) (done rest : List Char) :
    takeQuoted false false done (escapeAll false run cs ++ '"' :: rest) =
      some (String.ofList (done.reverse ++ cs), rest) := by
  induction cs generalizing run done with
  | nil => simpa [escapeAll] using takeQuoted_end
  | cons c cs ih =>
      by_cases hquote : c = '"'
      · rw [hquote, escapeAll_quote rfl, List.append_assoc, (Escape.letter rfl).takeQuoted, ih]
        simp
      · rw [escapeAll_cons _ _ hquote, List.append_assoc, (escape_escape false hquote).takeQuoted,
          ih]
        simp

/-- A quote that three do not begin at belongs to the text. -/
theorem takeQuoted_raw (h : ∀ more, rest ≠ '"' :: '"' :: more) :
    takeQuoted true false done ('"' :: rest) = takeQuoted true false ('"' :: done) rest := by
  simp

/-- Three quotes end a text of several lines, with at most two more quotes in
front of them. -/
theorem takeQuoted_quotes {n : Nat} (hn : n ≤ 2) (hrest : rest.head? ≠ some '"') :
    takeQuoted true false done (List.replicate n '"' ++ '"' :: '"' :: '"' :: rest) =
      some (String.ofList (done.reverse ++ List.replicate n '"'), rest) := by
  have hone : ∀ more, rest ≠ '"' :: more := by
    rintro more rfl
    simp at hrest
  have htwo : ∀ more, rest ≠ '"' :: '"' :: more := fun more => hone ('"' :: more)
  match n, hn with
  | 0, _ =>
      rw [takeQuoted.eq_def]
      simp
  | 1, _ => simp
  | 2, _ => simp

/-- What is written for a character that is no quote, or a quote that does not
stand for itself, does not begin with a quote. -/
theorem escapeAll_cons_eq {run : Nat} (h : c = '"' → (lines && run < 2) = false)
    (cs : List Char) : ∃ d more, escapeAll lines run (c :: cs) = d :: more ∧ d ≠ '"' := by
  by_cases hquote : c = '"'
  · subst hquote
    exact ⟨_, _, escapeAll_quote (h rfl) cs, by decide⟩
  · obtain ⟨d, more, heq, hd, -⟩ := (escape_escape lines hquote).eq_cons
    exact ⟨d, more ++ escapeAll lines 0 cs, by rw [escapeAll_cons _ _ hquote, heq]; rfl, hd⟩

/-- A quote that stands for itself is one of at most two at the end of the text,
or it is not the first of three. -/
theorem escapeAll_raw_or (run : Nat) (cs : List Char) :
    (∃ n ≤ 2, '"' :: cs = List.replicate n '"' ∧
        '"' :: escapeAll true (run + 1) cs = List.replicate n '"') ∨
      ∀ close more, escapeAll true (run + 1) cs ++ close ≠ '"' :: '"' :: more := by
  cases cs with
  | nil => exact .inl ⟨1, by omega, rfl, rfl⟩
  | cons x cs =>
      by_cases hx : x = '"' → (true && run + 1 < 2) = false
      · obtain ⟨d, more, heq, hd⟩ := escapeAll_cons_eq hx cs
        exact .inr fun close more' => by simp [heq, hd]
      · obtain ⟨rfl, hless⟩ := Classical.not_imp.mp hx
        have hfirst : run = 0 := by simpa using hless
        rw [escapeAll_raw (by omega)]
        cases cs with
        | nil => exact .inl ⟨2, by omega, rfl, rfl⟩
        | cons y cs =>
            have hy : y = '"' → (true && run + 1 + 1 < 2) = false := fun _ => by simp
            obtain ⟨d, more, heq, hd⟩ := escapeAll_cons_eq hy cs
            exact .inr fun close more' => by simp [heq, hd]

/-- What is escaped between three quotes is read back up to the closing ones. -/
theorem takeQuoted_escapeAll (hrest : rest.head? ≠ some '"') (cs : List Char) (run : Nat)
    (done : List Char) :
    takeQuoted true false done (escapeAll true run cs ++ '"' :: '"' :: '"' :: rest) =
      some (String.ofList (done.reverse ++ cs), rest) := by
  induction cs generalizing run done with
  | nil => simpa [escapeAll] using takeQuoted_quotes (n := 0) (by omega) hrest
  | cons c cs ih =>
      by_cases hquote : c = '"'
      · subst hquote
        by_cases hrun : run < 2
        -- The quote stands for itself.  At the end of the text it is read
        -- together with the three behind it, anywhere else by itself.
        · rw [escapeAll_raw hrun]
          rcases escapeAll_raw_or run cs with ⟨n, hn, hcs, hwritten⟩ | hraw
          · rw [hcs, hwritten, takeQuoted_quotes hn hrest]
          · rw [List.cons_append, takeQuoted_raw (hraw _), ih]
            simp
        · rw [escapeAll_quote (by simpa using hrun), List.append_assoc,
            (Escape.letter rfl).takeQuoted, ih]
          simp
      · rw [escapeAll_cons _ _ hquote, List.append_assoc, (escape_escape true hquote).takeQuoted, ih]
        simp

/-! ## Texts in single quotes -/

/-- A character that stands for itself in single quotes. -/
theorem takeLiteral_plain (hplain : isControl c = false) (hquote : c ≠ '\'')
    (hnewline : c = '\n' → lines = true) :
    takeLiteral lines done (c :: rest) = takeLiteral lines (c :: done) rest := by
  by_cases hline : c = '\n'
  · simp [hline, hnewline hline]
  · have hreturn : c ≠ '\r' := by rintro rfl; contradiction
    have hshown : isPlain c := by simpa [isControl, hline] using hplain
    simp [hquote, hreturn, hshown]

/-- A quote ends a text of one line. -/
theorem takeLiteral_end :
    takeLiteral false done ('\'' :: rest) = some (String.ofList done.reverse, rest) := by
  by_cases h : ∃ more, rest = '\'' :: '\'' :: more
  · obtain ⟨more, rfl⟩ := h
    rw [takeLiteral.eq_def]
    simp
  · have hrest : ∀ more, rest ≠ '\'' :: '\'' :: more := fun more he => h ⟨more, he⟩
    simp

/-- A line without single quotes is its own literal. -/
theorem takeLiteral_line {cs : List Char} (hcontrol : ∀ c ∈ cs, isControl c = false)
    (hnewline : '\n' ∉ cs) (hquote : '\'' ∉ cs) (done rest : List Char) :
    takeLiteral false done (cs ++ '\'' :: rest) = some (String.ofList (done.reverse ++ cs), rest) := by
  induction cs generalizing done with
  | nil => simpa using takeLiteral_end
  | cons c cs ih =>
      simp only [List.mem_cons, not_or, forall_eq_or_imp] at hcontrol hnewline hquote
      rw [List.cons_append, takeLiteral_plain hcontrol.1 (Ne.symm hquote.1)
        (fun h => absurd h.symm hnewline.1), ih hcontrol.2 hnewline.2 hquote.2]
      simp

/-- A quote that three do not begin at belongs to the text. -/
theorem takeLiteral_raw (h : ∀ more, rest ≠ '\'' :: '\'' :: more) :
    takeLiteral true done ('\'' :: rest) = takeLiteral true ('\'' :: done) rest := by
  simp

/-- Three quotes end a text of several lines, with at most two more quotes in
front of them. -/
theorem takeLiteral_quotes {n : Nat} (hn : n ≤ 2) (hrest : rest.head? ≠ some '\'') :
    takeLiteral true done (List.replicate n '\'' ++ '\'' :: '\'' :: '\'' :: rest) =
      some (String.ofList (done.reverse ++ List.replicate n '\''), rest) := by
  have hone : ∀ more, rest ≠ '\'' :: more := by
    rintro more rfl
    simp at hrest
  have htwo : ∀ more, rest ≠ '\'' :: '\'' :: more := fun more => hone ('\'' :: more)
  match n, hn with
  | 0, _ =>
      rw [takeLiteral.eq_def]
      simp
  | 1, _ => simp
  | 2, _ => simp

/-- The longest run is no shorter than the one that is going on. -/
theorem le_longestRun (x : Char) (current : Nat) (cs : List Char) :
    current ≤ longestRun x current cs := by
  induction cs generalizing current with
  | nil => exact Nat.le_refl _
  | cons c cs ih =>
      rw [longestRun]
      split
      · exact Nat.le_trans (Nat.le_succ _) (ih _)
      · exact Nat.le_max_left _ _

/-- A quote is one of at most two at the end of a text, or it is not the first
of three, unless three stand side by side somewhere. -/
theorem literal_raw_or {run : Nat} {cs : List Char} (h : longestRun '\'' (run + 1) cs ≤ 2) :
    (∃ n ≤ 2, '\'' :: cs = List.replicate n '\'') ∨
      ∀ close more, cs ++ close ≠ '\'' :: '\'' :: more := by
  cases cs with
  | nil => exact .inl ⟨1, by omega, rfl⟩
  | cons x cs =>
      by_cases hx : x = '\''
      · cases cs with
        | nil => exact .inl ⟨2, by omega, by rw [hx]; rfl⟩
        | cons y cs =>
            by_cases hy : y = '\''
            · have hthree := le_longestRun '\'' (run + 1 + 1 + 1) cs
              rw [longestRun, if_pos hx, longestRun, if_pos hy] at h
              omega
            · exact .inr fun close more => by simp [hy]
      · exact .inr fun close more => by simp [hx]

/-- Lines without three single quotes in a row are their own literal. -/
theorem takeLiteral_lines (hrest : rest.head? ≠ some '\'') {cs : List Char}
    (hcontrol : ∀ c ∈ cs, isControl c = false) {run : Nat} (hrun : longestRun '\'' run cs ≤ 2)
    (done : List Char) :
    takeLiteral true done (cs ++ '\'' :: '\'' :: '\'' :: rest) =
      some (String.ofList (done.reverse ++ cs), rest) := by
  induction cs generalizing run done with
  | nil => simpa using takeLiteral_quotes (n := 0) (by omega) hrest
  | cons c cs ih =>
      have hmore : ∀ c ∈ cs, isControl c = false := fun x hx =>
        hcontrol x (List.mem_cons_of_mem _ hx)
      rw [longestRun] at hrun
      by_cases hquote : c = '\''
      · subst hquote
        rw [if_pos rfl] at hrun
        rcases literal_raw_or hrun with ⟨n, hn, hcs⟩ | hraw
        · rw [hcs, takeLiteral_quotes hn hrest]
        · rw [List.cons_append, takeLiteral_raw (hraw _), ih hmore hrun]
          simp
      · rw [if_neg hquote] at hrun
        rw [List.cons_append, takeLiteral_plain (hcontrol c List.mem_cons_self) hquote fun _ => rfl,
          ih hmore (Nat.le_trans (Nat.le_max_right _ _) hrun)]
        simp

/-! ## Texts -/

/-- A character without a run does not occur. -/
theorem not_mem_of_longestRun_eq_zero {x : Char} {current : Nat} {cs : List Char}
    (h : longestRun x current cs = 0) : x ∉ cs := by
  induction cs generalizing current with
  | nil => simp
  | cons c cs ih =>
      rw [longestRun] at h
      split at h
      · have hpos := le_longestRun x (current + 1) cs
        omega
      · next hne =>
          have hmore : longestRun x 0 cs = 0 := by omega
          rw [List.mem_cons, not_or]
          exact ⟨fun he => hne he.symm, ih hmore⟩

/-- What may stand behind a text: no quote, which could be taken for a part of
it. -/
def NoQuote (rest : List Char) : Prop := rest.head? ≠ some '"' ∧ rest.head? ≠ some '\''

variable {cs : List Char}

theorem takeLine_inQuotes (cs rest : List Char) :
    takeLine (inQuotes cs ++ rest) = some (String.ofList cs, rest) := by
  simpa [inQuotes, takeLine] using takeQuoted_escapeAll_line cs 0 [] rest

theorem takeLine_inSingleQuotes (hcontrol : ∀ c ∈ cs, isControl c = false) (hnewline : '\n' ∉ cs)
    (hquote : '\'' ∉ cs) (rest : List Char) :
    takeLine (inSingleQuotes cs ++ rest) = some (String.ofList cs, rest) := by
  simpa [inSingleQuotes, takeLine] using takeLiteral_line hcontrol hnewline hquote [] rest

/-- A text that does not begin with three quotes is one of one line. -/
theorem takeText_eq_takeLine (hdoubles : ∀ more, cs ≠ '"' :: '"' :: '"' :: more)
    (hsingles : ∀ more, cs ≠ '\'' :: '\'' :: '\'' :: more) : takeText cs = takeLine cs := by
  simp [takeText]

/-- A text in quotes is read back. -/
theorem takeText_inQuotes (hrest : NoQuote rest) (cs : List Char) :
    takeText (inQuotes cs ++ rest) = some (String.ofList cs, rest) := by
  have hone : ∀ more, rest ≠ '"' :: more := by
    rintro more rfl
    exact hrest.1 rfl
  rw [takeText_eq_takeLine ?_ (by simp [inQuotes]), takeLine_inQuotes]
  intro more
  cases cs with
  | nil => simp [inQuotes, escapeAll, hone]
  | cons c cs =>
      have hc : c = '"' → (false && 0 < 2) = false := fun _ => rfl
      obtain ⟨d, tail, heq, hd⟩ := escapeAll_cons_eq hc cs
      simp [inQuotes, heq, hd]

/-- A text in single quotes is read back, if it has none itself. -/
theorem takeText_inSingleQuotes (hrest : NoQuote rest)
    (hcontrol : ∀ c ∈ cs, isControl c = false) (hnewline : '\n' ∉ cs) (hquote : '\'' ∉ cs) :
    takeText (inSingleQuotes cs ++ rest) = some (String.ofList cs, rest) := by
  have hone : ∀ more, rest ≠ '\'' :: more := by
    rintro more rfl
    exact hrest.2 rfl
  rw [takeText_eq_takeLine (by simp [inSingleQuotes]) ?_,
    takeLine_inSingleQuotes hcontrol hnewline hquote]
  intro more
  cases cs with
  | nil => simp [inSingleQuotes, hone]
  | cons c cs =>
      have hc : c ≠ '\'' := by
        rintro rfl
        exact hquote List.mem_cons_self
      simp [inSingleQuotes, hc]

/-- The line end behind opening quotes is passed over, and nothing else is. -/
theorem skipLineBreak_opening {body : List Char} (h : '\n' ∉ cs → lineBreak? body = none) :
    skipLineBreak (opening (Features.of cs) ++ body) = body := by
  unfold opening
  split
  · rfl
  · next hnewline =>
      have hbody := h (by simpa [Features.of] using hnewline)
      rw [List.nil_append, skipLineBreak, hbody, Option.getD_none]

theorem lineBreak?_cons (hnewline : c ≠ '\n') (hreturn : c ≠ '\r') (rest : List Char) :
    lineBreak? (c :: rest) = none := by
  simp [lineBreak?, hnewline, hreturn]

/-- A text in three quotes is read back. -/
theorem takeText_inTripleQuotes (hrest : NoQuote rest) (cs : List Char) :
    takeText (inTripleQuotes (Features.of cs) cs ++ rest) = some (String.ofList cs, rest) := by
  have hbody : '\n' ∉ cs →
      lineBreak? (escapeAll true 0 cs ++ '"' :: '"' :: '"' :: rest) = none := by
    intro hnewline
    cases cs with
    | nil => rfl
    | cons c cs =>
        by_cases hquote : c = '"'
        · rw [hquote, escapeAll_raw (by omega)]
          rfl
        · obtain ⟨d, more, heq, -, hreturn, hline⟩ := (escape_escape true hquote).eq_cons
          rw [escapeAll_cons _ _ hquote, heq]
          exact lineBreak?_cons (fun hd => hnewline (by simp [hline hd])) hreturn _
  have htext := takeQuoted_escapeAll hrest.1 cs 0 []
  simpa [inTripleQuotes, takeText, skipLineBreak_opening hbody] using htext

/-- A text in three single quotes is read back, if it has no three in a row. -/
theorem takeText_inTripleSingleQuotes (hrest : NoQuote rest)
    (hcontrol : ∀ c ∈ cs, isControl c = false) (hrun : longestRun '\'' 0 cs ≤ 2) :
    takeText (inTripleSingleQuotes (Features.of cs) cs ++ rest) = some (String.ofList cs, rest) := by
  have hbody : '\n' ∉ cs → lineBreak? (cs ++ '\'' :: '\'' :: '\'' :: rest) = none := by
    intro hnewline
    cases cs with
    | nil => rfl
    | cons c cs =>
        refine lineBreak?_cons (by rintro rfl; simp at hnewline) ?_ _
        rintro rfl
        exact absurd (hcontrol '\r' List.mem_cons_self) (by decide)
  have htext := takeLiteral_lines hrest.2 hcontrol hrun []
  simpa [inTripleSingleQuotes, takeText, skipLineBreak_opening hbody] using htext

namespace Features

theorem not_control (h : (of cs).control = false) : ∀ c ∈ cs, isControl c = false := by
  simpa [of] using h

theorem not_newline (h : (of cs).newline = false) : '\n' ∉ cs := by simpa [of] using h

theorem not_single (h : (of cs).singles = 0) : '\'' ∉ cs := not_mem_of_longestRun_eq_zero h

end Features

/-- **A text that is written is read back**, with whatever follows behind it. -/
theorem takeText_writeText (hrest : NoQuote rest) (s : String) :
    takeText ((writeText s).toList ++ rest) = some (s, rest) := by
  have hself : some (String.ofList s.toList, rest) = some (s, rest) := by
    rw [String.ofList_toList]
  unfold writeText
  rw [String.toList_ofList, ← hself]
  split
  · exact takeText_inQuotes hrest _
  split
  · next h =>
      simp only [Bool.and_eq_true, Bool.not_eq_true', decide_eq_true_eq] at h
      exact takeText_inSingleQuotes hrest (Features.not_control h.1.1) (Features.not_newline h.2)
        (Features.not_single h.1.2)
  split
  · exact takeText_inTripleQuotes hrest _
  split
  · next h =>
      simp only [Bool.and_eq_true, Bool.not_eq_true', decide_eq_true_eq] at h
      exact takeText_inTripleSingleQuotes hrest (Features.not_control h.1) h.2
  split
  · exact takeText_inTripleQuotes hrest _
  · exact takeText_inQuotes hrest _

/-- A text that is written begins with a quote. -/
theorem writeText_eq_cons (s : String) :
    ∃ more, (writeText s).toList = '"' :: more ∨ (writeText s).toList = '\'' :: more := by
  unfold writeText
  rw [String.toList_ofList]
  split
  · exact ⟨_, .inl rfl⟩
  split
  · exact ⟨_, .inr rfl⟩
  split
  · exact ⟨_, .inl rfl⟩
  split
  · exact ⟨_, .inr rfl⟩
  split
  · exact ⟨_, .inl rfl⟩
  · exact ⟨_, .inl rfl⟩

/-! ## Keys -/

/-- A key in quotes is a text of one line. -/
theorem takeKeyPart_quoted (h : c = '"' ∨ c = '\'') (cs : List Char) :
    takeKeyPart (c :: cs) = takeLine (c :: cs) := by
  rcases h with rfl | rfl <;> rfl

/-- A key without quotes is a word. -/
theorem takeKeyPart_word (hne : cs ≠ []) (hword : ∀ c ∈ cs, isKeyChar c = true)
    (hrest : ∀ c ∈ rest.head?, isKeyChar c = false) :
    takeKeyPart (cs ++ rest) = some (String.ofList cs, rest) := by
  have htake : (cs ++ rest).takeWhile isKeyChar = cs := by
    rw [List.takeWhile_append_of_pos hword]
    cases rest with
    | nil => simp
    | cons c rest => simp [hrest c rfl]
  have hdrop : (cs ++ rest).dropWhile isKeyChar = rest := by
    rw [List.dropWhile_append_of_pos hword]
    cases rest with
    | nil => rfl
    | cons c rest => simp [hrest c rfl]
  cases cs with
  | nil => contradiction
  | cons c cs =>
      have hc := hword c List.mem_cons_self
      have hdouble : c ≠ '"' := by rintro rfl; contradiction
      have hsingle : c ≠ '\'' := by rintro rfl; contradiction
      rw [List.cons_append] at htake hdrop ⊢
      rw [takeKeyPart, if_neg (by simp [hdouble, hsingle]), htake, hdrop]
      rfl

/-- **A key that is written is read back**, with whatever follows behind it that
cannot be a part of it. -/
theorem takeKeyPart_writeKey (hrest : ∀ c ∈ rest.head?, isKeyChar c = false) (key : String) :
    takeKeyPart ((writeKey key).toList ++ rest) = some (key, rest) := by
  have hself : some (String.ofList key.toList, rest) = some (key, rest) := by
    rw [String.ofList_toList]
  unfold writeKey
  dsimp only
  split
  · next h =>
      simp only [Bool.and_eq_true, Bool.not_eq_true', List.isEmpty_eq_false_iff,
        List.all_eq_true] at h
      rw [← hself, takeKeyPart_word h.1 h.2 hrest]
  · rw [String.toList_ofList, ← hself]
    split
    · next h =>
        simp only [Bool.and_eq_true, Bool.not_eq_true', decide_eq_true_eq] at h
        rw [← takeLine_inSingleQuotes (Features.not_control h.1.1.1)
          (Features.not_newline h.1.1.2) (Features.not_single h.1.2)]
        exact takeKeyPart_quoted (.inr rfl) _
    · rw [← takeLine_inQuotes]
      exact takeKeyPart_quoted (.inl rfl) _

/-- What a key begins with: a character of its own or a quote. -/
theorem writeKey_eq_cons (key : String) :
    ∃ d more, (writeKey key).toList = d :: more ∧ (isKeyChar d ∨ d = '"' ∨ d = '\'') := by
  unfold writeKey
  dsimp only
  split
  · next h =>
      simp only [Bool.and_eq_true, Bool.not_eq_true', List.isEmpty_eq_false_iff,
        List.all_eq_true] at h
      obtain ⟨d, more, hcs⟩ := List.exists_cons_of_ne_nil h.1
      exact ⟨d, more, hcs, .inl (h.2 d (by simp [hcs]))⟩
  · rw [String.toList_ofList]
    split
    · exact ⟨_, _, rfl, .inr (.inr rfl)⟩
    · exact ⟨_, _, rfl, .inr (.inl rfl)⟩

end SchemaCatalog.Toml
