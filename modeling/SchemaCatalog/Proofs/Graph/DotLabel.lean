import Mathlib.Algebra.Group.Nat.Even
import SchemaCatalog.Proofs.Graph.DotReader

/-!
# SchemaCatalog.Proofs.Graph.DotLabel

Labels between their quotes.  A label is written with a backslash before each
quote; backslashes themselves are written as they are.  So a backslash of the
label can pair with what follows it, and where a run of them stands before a
quote or at the end and its length is odd, the string does not end at the
closing quote.

`labelRead` says what reading a label can come to, and from it follow both that
it is read well if its runs are even (`readQuoted_escaped_iff`), with each two
backslashes in a row taken for one (`collapse`), and that nothing behind it can
be read if they are not (`lex_label_eq_none`).
-/

namespace SchemaCatalog

namespace Dot

/-! ## how labels are read -/

/-- A text as it stands between its quotes. -/
def escaped (cs : List Char) : List Char :=
  cs.flatMap fun c => if c = '"' then ['\\', '"'] else [c]

/-- A text with each two backslashes in a row taken for one. -/
def collapse : List Char → List Char
  | [] => []
  | '\\' :: '\\' :: rest => '\\' :: collapse rest
  | c :: rest => c :: collapse rest

/-- Runs of backslashes before a quote or at the end have even length. -/
def EvenRuns (cs : List Char) : Prop :=
  ∀ front n back, cs = front ++ List.replicate n '\\' ++ back → front.getLast? ≠ some '\\' →
    (∀ c ∈ back.head?, c = '"') → Even n

theorem evenRuns_nil : EvenRuns [] := by
  intro front n back hsplit _ _
  simp only [List.nil_eq, List.append_eq_nil_iff, List.replicate_eq_nil_iff] at hsplit
  rw [hsplit.1.2]
  exact Even.zero

/-- A run goes on to the left at most to the last backslash. -/
theorem getLast?_cons_ne {c : Char} {front : List Char} (hfront : front.getLast? ≠ some '\\')
    (hc : c ≠ '\\' ∨ front ≠ []) : (c :: front).getLast? ≠ some '\\' := by
  cases front with
  | nil => simpa using hc
  | cons d front => rwa [List.getLast?_cons_cons]

/-- Any character but a backslash leaves the runs after it as they are. -/
theorem evenRuns_cons {c : Char} (hc : c ≠ '\\') {cs : List Char} :
    EvenRuns (c :: cs) ↔ EvenRuns cs := by
  constructor
  · intro h front n back hsplit hfront hback
    exact h (c :: front) n back (by rw [hsplit]; rfl) (getLast?_cons_ne hfront (.inl hc)) hback
  · intro h front n back hsplit hfront hback
    cases front with
    | nil =>
        cases n with
        | zero => exact Even.zero
        | succ n => exact absurd (List.cons_eq_cons.mp hsplit).1 hc
    | cons d front =>
        obtain ⟨rfl, hrest⟩ := List.cons_eq_cons.mp hsplit
        refine h front n back hrest ?_ hback
        cases front with
        | nil => simp
        | cons e front => rwa [List.getLast?_cons_cons] at hfront

/-- A backslash that pairs with nothing may be left out. -/
theorem evenRuns_backslash {c : Char} (hslash : c ≠ '\\') (hquote : c ≠ '"') {cs : List Char} :
    EvenRuns ('\\' :: c :: cs) ↔ EvenRuns (c :: cs) := by
  constructor
  · intro h front n back hsplit hfront hback
    cases front with
    | nil =>
        cases n with
        | zero => exact Even.zero
        | succ n => exact absurd (List.cons_eq_cons.mp hsplit).1 hslash
    | cons d front =>
        exact h ('\\' :: d :: front) n back (by rw [hsplit]; rfl)
          (getLast?_cons_ne hfront (.inr (List.cons_ne_nil d front))) hback
  · intro h front n back hsplit hfront hback
    match front, n with
    | [], 0 => exact Even.zero
    | [], 1 =>
        obtain rfl := (List.cons_eq_cons.mp hsplit).2
        exact absurd (hback c rfl) hquote
    | [], n + 2 => exact absurd (List.cons_eq_cons.mp (List.cons_eq_cons.mp hsplit).2).1 hslash
    | [d], n =>
        obtain ⟨rfl, -⟩ := List.cons_eq_cons.mp hsplit
        exact absurd rfl hfront
    | d :: e :: front, n =>
        rw [List.getLast?_cons_cons] at hfront
        exact h (e :: front) n back (List.cons_eq_cons.mp hsplit).2 hfront hback

/-- Two backslashes in a row may be left out. -/
theorem evenRuns_pair {cs : List Char} : EvenRuns ('\\' :: '\\' :: cs) ↔ EvenRuns cs := by
  constructor
  · intro h front n back hsplit hfront hback
    cases front with
    | nil =>
        have htwo := h [] (n + 2) back (by rw [hsplit]; rfl) hfront hback
        exact (Nat.even_add.mp htwo).mpr (by decide)
    | cons d front =>
        have hlast := getLast?_cons_ne (c := '\\') hfront (.inr (List.cons_ne_nil d front))
        exact h ('\\' :: '\\' :: d :: front) n back (by rw [hsplit]; rfl)
          (getLast?_cons_ne hlast (.inr (List.cons_ne_nil _ _))) hback
  · intro h front n back hsplit hfront hback
    match front, n with
    | [], 0 => exact Even.zero
    | [], 1 =>
        obtain rfl := (List.cons_eq_cons.mp hsplit).2
        exact absurd (hback '\\' rfl) (by decide)
    | [], n + 2 =>
        have hrest := (List.cons_eq_cons.mp (List.cons_eq_cons.mp hsplit).2).2
        exact (h [] n back hrest (by simp) hback).add (by decide)
    | [d], n =>
        obtain ⟨rfl, -⟩ := List.cons_eq_cons.mp hsplit
        exact absurd rfl hfront
    | d :: e :: front, n =>
        obtain ⟨rfl, hrest⟩ := List.cons_eq_cons.mp (List.cons_eq_cons.mp hsplit).2
        refine h front n back hrest ?_ hback
        cases front with
        | nil => exact absurd rfl hfront
        | cons x front => rwa [List.getLast?_cons_cons, List.getLast?_cons_cons] at hfront

theorem not_evenRuns_last : ¬ EvenRuns ['\\'] := by
  intro h
  exact absurd (h [] 1 [] rfl (by simp) (by simp)) (by decide)

/-- A lone backslash at a quote is an odd run. -/
theorem not_evenRuns_quote (cs : List Char) : ¬ EvenRuns ('\\' :: '"' :: cs) := by
  intro h
  exact absurd (h [] 1 ('"' :: cs) rfl (by simp) (by simp)) (by decide)

@[simp] theorem escaped_nil : escaped [] = [] := rfl

/-- A quote is escaped by a backslash. -/
@[simp] theorem escaped_quote (cs : List Char) :
    escaped ('"' :: cs) = '\\' :: '"' :: escaped cs := by
  simp [escaped]

/-- Any other character stands for itself. -/
theorem escaped_cons {c : Char} (h : c ≠ '"') (cs : List Char) :
    escaped (c :: cs) = c :: escaped cs := by
  simp [escaped, h]

@[simp] theorem escaped_backslash (cs : List Char) :
    escaped ('\\' :: cs) = '\\' :: escaped cs :=
  escaped_cons (by decide) cs

/-- What reading the rest of a string comes to that is a label with `rest` behind
its closing quote. -/
inductive LabelRead (rest : List Char) (cs : List Char) : Option (List Char × List Char) → Prop
  /-- The string ends at the closing quote. -/
  | ends (heven : EvenRuns cs) : LabelRead rest cs (some (collapse cs, rest))
  /-- It ends within the label. -/
  | early (hodd : ¬ EvenRuns cs) (text tail : List Char) :
    LabelRead rest cs (some (text, escaped tail ++ '"' :: rest))
  /-- It goes on after the closing quote. -/
  | late (hodd : ¬ EvenRuns cs) (text : List Char) :
    LabelRead rest cs ((readQuoted rest).map fun (more, after) => (text ++ more, after))

/-- A label with one more character in front. -/
theorem LabelRead.cons {rest cs cs' : List Char} {c : Char} {read : Option (List Char × List Char)}
    (h : LabelRead rest cs read) (heven : EvenRuns cs' ↔ EvenRuns cs)
    (hcollapse : collapse cs' = c :: collapse cs) :
    LabelRead rest cs' (read.map fun (text, after) => (c :: text, after)) := by
  cases h with
  | ends h =>
      show LabelRead rest cs' (some (c :: collapse cs, rest))
      rw [← hcollapse]
      exact .ends (heven.mpr h)
  | early h text tail => exact .early (mt heven.mp h) (c :: text) tail
  | late h text =>
      rw [Option.map_map]
      exact .late (mt heven.mp h) (c :: text)

/-- **Reading a label** comes to one of these. -/
theorem labelRead (cs rest : List Char) :
    LabelRead rest cs (readQuoted (escaped cs ++ '"' :: rest)) := by
  fun_induction collapse cs with
  | case1 => exact .ends evenRuns_nil
  | case2 cs ih =>
      rw [escaped_backslash, escaped_backslash, List.cons_append, List.cons_append,
        readQuoted_pair (.inl rfl)]
      exact ih.cons evenRuns_pair rfl
  | case3 c cs hpair ih =>
      have hcollapse : collapse (c :: cs) = c :: collapse cs := by rw [collapse]; exact hpair
      by_cases hslash : c = '\\'
      · subst hslash
        cases cs with
        | nil =>
            -- the closing quote is the other half of a pair
            have hread : readQuoted (escaped ['\\'] ++ '"' :: rest) =
                (readQuoted rest).map fun (more, after) => (['"'] ++ more, after) :=
              readQuoted_pair (.inr rfl) rest
            rw [hread]
            exact .late not_evenRuns_last ['"']
        | cons d cs =>
            by_cases hquote : d = '"'
            · -- the backslash that is written for the quote is
              subst hquote
              rw [escaped_backslash, escaped_quote, List.cons_append, List.cons_append,
                readQuoted_pair (.inl rfl)]
              exact .early (not_evenRuns_quote cs) ['\\'] cs
            · have hd : d ≠ '\\' := by
                rintro rfl
                exact hpair cs rfl rfl
              have hescaped := escaped_cons hquote cs
              rw [escaped_backslash, hescaped, List.cons_append, List.cons_append,
                readQuoted_backslash (by simp [hd, hquote]), ← List.cons_append, ← hescaped]
              exact ih.cons (evenRuns_backslash hd hquote) hcollapse
      · by_cases hquote : c = '"'
        · subst hquote
          rw [escaped_quote, List.cons_append, List.cons_append, readQuoted_pair (.inr rfl)]
          exact ih.cons (evenRuns_cons hslash) hcollapse
        · rw [escaped_cons hquote, List.cons_append, readQuoted_cons (by simp [hslash, hquote])]
          exact ih.cons (evenRuns_cons hslash) hcollapse

/-- **A label** ends at its closing quote if and only if its runs are even. -/
theorem readQuoted_escaped_iff {cs text rest : List Char} :
    readQuoted (escaped cs ++ '"' :: rest) = some (text, rest) ↔
      EvenRuns cs ∧ text = collapse cs := by
  have hlabel := labelRead cs rest
  generalize readQuoted (escaped cs ++ '"' :: rest) = read at hlabel
  cases hlabel with
  | ends heven => simp [heven, eq_comm]
  | early hodd text' tail =>
      simp only [hodd, false_and, iff_false, Option.some.injEq, Prod.mk.injEq, not_and]
      intro _ hrest
      have hlength := congrArg List.length hrest
      simp only [List.length_append, List.length_cons] at hlength
      omega
  | late hodd text' =>
      simp only [hodd, false_and, iff_false]
      intro hread
      obtain ⟨⟨more, after⟩, hmore, heq⟩ := Option.map_eq_some_iff.mp hread
      obtain ⟨-, rfl⟩ := Prod.mk.inj heq
      exact absurd (length_lt_of_readQuoted hmore) (Nat.lt_irrefl _)

/-- Dropping the word at the front and escaping can be exchanged. -/
theorem dropWhile_escaped (cs rest : List Char) :
    (escaped cs ++ '"' :: rest).dropWhile isWord =
      escaped (cs.dropWhile isWord) ++ '"' :: rest := by
  induction cs with
  | nil => exact List.dropWhile_cons_of_neg (by decide)
  | cons c cs ih =>
      by_cases hword : isWord c = true
      · have hquote : c ≠ '"' := by
          rintro rfl
          contradiction
        rw [escaped_cons hquote, List.cons_append, List.dropWhile_cons_of_pos hword, ih,
          List.dropWhile_cons_of_pos hword]
      · rw [List.dropWhile_cons_of_neg hword]
        by_cases hquote : c = '"'
        · subst hquote
          exact List.dropWhile_cons_of_neg (by decide)
        · rw [escaped_cons hquote, List.cons_append, List.dropWhile_cons_of_neg hword]

/-- An arrow head behind a dash is the label's own. -/
theorem exists_of_escaped_eq_arrow {cs rest after : List Char}
    (h : escaped cs ++ '"' :: rest = '>' :: after) :
    ∃ more, cs = '>' :: more ∧ after = escaped more ++ '"' :: rest := by
  cases cs with
  | nil => exact absurd (List.cons_eq_cons.mp h).1 (by decide)
  | cons c more =>
      by_cases hquote : c = '"'
      · subst hquote
        exact absurd (List.cons_eq_cons.mp h).1 (by decide)
      · rw [escaped_cons hquote, List.cons_append] at h
        obtain ⟨rfl, rfl⟩ := List.cons_eq_cons.mp h
        exact ⟨more, rfl, rfl⟩

/-- Behind the early end of a label there is no text, if there is none behind the
label and a quoted string. -/
theorem lex_escaped_eq_none {rest : List Char} (hrest : lex ('"' :: rest) = none)
    (cs : List Char) : lex (escaped cs ++ '"' :: rest) = none := by
  match cs with
  | [] => exact hrest
  | c :: cs =>
      by_cases hquote : c = '"'
      · subst hquote
        rw [escaped_quote, List.cons_append]
        exact lex_eq_none (by decide) (by decide) (by decide) (by decide) (by decide) _
      · have hnext := lex_escaped_eq_none hrest cs
        rw [escaped_cons hquote, List.cons_append]
        by_cases hword : isWord c = true
        · have hlater := lex_escaped_eq_none hrest (cs.dropWhile isWord)
          rw [lex_cons_of_isWord hword, dropWhile_escaped, hlater]
          rfl
        · by_cases hblank : c = ' ' ∨ c = '\n'
          · rw [lex_blank hblank, hnext]
          · by_cases hmark : c ∈ marks
            · rw [lex_mark hmark, hnext]
              rfl
            · by_cases hdash : c = '-'
              · subst hdash
                refine lex_dash_eq_none fun after hafter => ?_
                obtain ⟨more, hmore, rfl⟩ := exists_of_escaped_eq_arrow hafter
                exact lex_escaped_eq_none hrest more
              · exact lex_eq_none hquote hdash (by simpa using hword) hblank hmark _
  termination_by cs.length
  decreasing_by
  · exact Nat.lt_succ_self _
  · exact Nat.lt_succ_of_le (List.length_dropWhile_le isWord cs)
  · simp only [hmore, List.length_cons]
    omega

/-- A label that does not end where it should leaves no text. -/
theorem lex_label_eq_none {cs rest : List Char} (hrest : lex ('"' :: rest) = none)
    (hodd : ¬ EvenRuns cs) : lex ('"' :: (escaped cs ++ '"' :: rest)) = none := by
  rw [lex_quote_eq_none_iff]
  intro text after hread
  have hlabel := labelRead cs rest
  generalize readQuoted (escaped cs ++ '"' :: rest) = read at hlabel hread
  cases hlabel with
  | ends heven => exact absurd heven hodd
  | early _ text' tail =>
      obtain ⟨-, rfl⟩ := Prod.mk.inj (Option.some.inj hread)
      exact lex_escaped_eq_none hrest tail
  | late _ text' =>
      obtain ⟨⟨more, after'⟩, hmore, heq⟩ := Option.map_eq_some_iff.mp hread
      obtain ⟨-, rfl⟩ := Prod.mk.inj heq
      exact lex_quote_eq_none_iff.mp hrest more after' hmore

/-- Collapsing makes no text longer. -/
theorem length_collapse_le (cs : List Char) : (collapse cs).length ≤ cs.length := by
  fun_induction collapse cs with
  | case1 => exact Nat.le_refl 0
  | case2 cs ih =>
      simp only [List.length_cons]
      omega
  | case3 c cs hpair ih => exact Nat.succ_le_succ ih

/-- A label is read as it is if it has no two backslashes in a row. -/
theorem collapse_eq_self_iff {cs : List Char} : collapse cs = cs ↔ ¬ ['\\', '\\'] <:+: cs := by
  fun_induction collapse cs with
  | case1 => simp
  | case2 cs ih =>
      have hle := length_collapse_le cs
      have hpair : ['\\', '\\'] <:+: '\\' :: '\\' :: cs := ⟨[], cs, rfl⟩
      simp only [hpair, not_true, iff_false]
      intro heq
      have hlength := congrArg List.length heq
      simp only [List.length_cons] at hlength
      omega
  | case3 c cs hpair ih =>
      have hfront : ¬ ['\\', '\\'] <+: c :: cs := by
        rintro ⟨more, hmore⟩
        obtain ⟨hc, hcs⟩ := List.cons_eq_cons.mp hmore
        exact hpair more hc.symm hcs.symm
      rw [List.infix_cons_iff, not_or, List.cons_eq_cons, ih]
      simp [hfront]

end Dot

end SchemaCatalog
