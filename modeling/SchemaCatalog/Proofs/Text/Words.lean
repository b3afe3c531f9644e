import Mathlib.Data.List.Basic
import SchemaCatalog.Text.Blank

/-!
# SchemaCatalog.Proofs.Text.Words

The words of a text as rules.  `Words` reads a text from left to right: white
space is left out, and what stands between it is a word, as long as it goes.
Every text has words by these rules, and only those that `Text.words` finds
(`words_iff`).
-/

namespace SchemaCatalog.Text

/-- The characters with the Unicode property White_Space. -/
def whiteSpace : List Char :=
  ['\t', '\n', '\x0B', '\x0C', '\x0D', ' ', '\u0085', '\u00A0', '\u1680', '\u2000', '\u2001',
    '\u2002', '\u2003', '\u2004', '\u2005', '\u2006', '\u2007', '\u2008', '\u2009', '\u200A',
    '\u2028', '\u2029', '\u202F', '\u205F', '\u3000']

/-- The words of a text are its maximal runs of characters that are no white space. -/
inductive Words : List Char → List (List Char) → Prop
  | nil : Words [] []
  | blank {c : Char} {rest : List Char} {words : List (List Char)} (hc : c ∈ whiteSpace)
    (h : Words rest words) : Words (c :: rest) words
  /-- A word ends only where the text does, or at white space. -/
  | word {word rest : List Char} {words : List (List Char)} (hne : word ≠ [])
    (hword : ∀ c ∈ word, c ∉ whiteSpace) (hstop : ∀ c ∈ rest.head?, c ∈ whiteSpace)
    (h : Words rest words) : Words (word ++ rest) (word :: words)

/-- The characters that split a text are those of the list. -/
theorem isBlank_iff {c : Char} : isBlank c = true ↔ c ∈ whiteSpace := by
  have hmem : c ∈ whiteSpace ↔ c.toNat ∈ whiteSpace.map Char.toNat := by
    refine ⟨List.mem_map_of_mem, fun h => ?_⟩
    obtain ⟨c', hc', heq⟩ := List.mem_map.mp h
    rwa [← Char.toNat_inj.mp heq]
  rw [hmem]
  simp [isBlank, whiteSpace]
  omega

theorem isBlank_eq_false_iff {c : Char} : isBlank c = false ↔ c ∉ whiteSpace := by
  rw [← isBlank_iff, Bool.not_eq_true]

theorem pushWord_nil (words : List (List Char)) : pushWord [] words = words := rfl

theorem pushWord_of_ne_nil {word : List Char} (h : word ≠ []) (words : List (List Char)) :
    pushWord word words = word :: words := by
  rw [pushWord, List.isEmpty_eq_false_iff.mpr h]
  rfl

/-- A run in front of a text is its first word, unless there is nothing in it. -/
theorem Words.push {word rest : List Char} {words : List (List Char)}
    (hword : ∀ c ∈ word, c ∉ whiteSpace) (hstop : ∀ c ∈ rest.head?, c ∈ whiteSpace)
    (h : Words rest words) : Words (word ++ rest) (pushWord word words) := by
  by_cases hne : word = []
  · rw [hne, pushWord_nil]
    exact h
  · rw [pushWord_of_ne_nil hne]
    exact .word hne hword hstop h

/-! ## cutting at blanks -/

/-- A blank ends the word before it. -/
theorem splitAtBlanks_blank {c : Char} (hc : c ∈ whiteSpace) (rest : List Char) :
    splitAtBlanks (c :: rest) = ([], pushWord (splitAtBlanks rest).1 (splitAtBlanks rest).2) := by
  rw [splitAtBlanks, isBlank_iff.mpr hc]
  rfl

/-- What is no white space stays together. -/
theorem splitAtBlanks_append {word : List Char} (hword : ∀ c ∈ word, c ∉ whiteSpace)
    (rest : List Char) :
    splitAtBlanks (word ++ rest) = (word ++ (splitAtBlanks rest).1, (splitAtBlanks rest).2) := by
  induction word with
  | nil => rfl
  | cons c word ih =>
      rw [List.forall_mem_cons] at hword
      rw [List.cons_append, splitAtBlanks, ih hword.2, isBlank_eq_false_iff.mpr hword.1]
      rfl

/-- White space ends a word. -/
theorem splitAtBlanks_stop {rest : List Char} (hstop : ∀ c ∈ rest.head?, c ∈ whiteSpace) :
    (splitAtBlanks rest).1 = [] := by
  cases rest with
  | nil => rfl
  | cons c rest => rw [splitAtBlanks_blank (hstop c rfl)]

/-- A cut is made where the first run ends, and the words are those behind it. -/
theorem exists_rest (cs : List Char) :
    ∃ rest, cs = (splitAtBlanks cs).1 ++ rest ∧ (∀ c ∈ (splitAtBlanks cs).1, c ∉ whiteSpace) ∧
      (∀ c ∈ rest.head?, c ∈ whiteSpace) ∧ Words rest (splitAtBlanks cs).2 := by
  induction cs with
  | nil => exact ⟨[], rfl, by simp [splitAtBlanks], by simp, .nil⟩
  | cons c cs ih =>
      obtain ⟨rest, hcs, hword, hstop, hwords⟩ := ih
      by_cases hc : c ∈ whiteSpace
      · rw [splitAtBlanks_blank hc]
        have hall := Words.push hword hstop hwords
        rw [← hcs] at hall
        exact ⟨c :: cs, rfl, by simp, by simpa using hc, .blank hc hall⟩
      · have hcons := splitAtBlanks_append (List.forall_mem_singleton.mpr hc) cs
        rw [List.singleton_append, List.singleton_append] at hcons
        rw [hcons]
        exact ⟨rest, congrArg (c :: ·) hcs, List.forall_mem_cons.mpr ⟨hc, hword⟩, hstop, hwords⟩

/-- By the rules a text has no other words than those that cutting leaves. -/
theorem Words.eq_pushWord {cs : List Char} {ws : List (List Char)} (h : Words cs ws) :
    pushWord (splitAtBlanks cs).1 (splitAtBlanks cs).2 = ws := by
  induction h with
  | nil => rfl
  | blank hc _ ih => rw [splitAtBlanks_blank hc, pushWord_nil, ih]
  | word hne hword hstop _ ih =>
      rw [splitAtBlanks_stop hstop, pushWord_nil] at ih
      rw [splitAtBlanks_append hword, splitAtBlanks_stop hstop, List.append_nil, ih,
        pushWord_of_ne_nil hne]

/-- **The words of a text** are found: the rules tell which they are. -/
theorem words_iff {text : String} {ws : List String} :
    words text = ws ↔ Words text.toList (ws.map String.toList) := by
  have hinv : (pushWord (splitAtBlanks text.toList).1 (splitAtBlanks text.toList).2) =
      (words text).map String.toList := by
    simp [words, List.map_map, Function.comp_def]
  constructor
  · rintro rfl
    obtain ⟨rest, hcs, hword, hstop, hwords⟩ := exists_rest text.toList
    have hall := Words.push hword hstop hwords
    rwa [← hcs, hinv] at hall
  · intro h
    have heq := hinv.symm.trans h.eq_pushWord
    exact (List.map_injective_iff.mpr fun _ _ => String.toList_injective) heq

end SchemaCatalog.Text
