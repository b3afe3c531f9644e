import Mathlib.Data.List.TakeWhile

/-!
# SchemaCatalog.Proofs.Graph.DotReader

A reader for DOT texts, to have something to hold the written text against.  It
knows the part of the language that a plain directed graph takes: settings,
default attributes, nodes and arrows, each with attributes in brackets and a
semicolon behind it, and words and quoted strings as values.

Inside a quoted string a backslash and a backslash or quote behind it are a
pair, which stands for the latter; the first quote that is not part of a pair
ends the string (`readQuoted`).

What follows a text has no influence on what the text is read as, unless it
runs on into the last word (`reads_of_lex`).  So a long text is read piece by
piece (`Reads.append`), and its statements one by one (`statements_append`).
-/

namespace SchemaCatalog.Dot

/-! ## quoted strings -/

/-- Reads the rest of a quoted string, and gives it with what stands behind it. -/
def readQuoted : List Char → Option (List Char × List Char)
  | [] => none
  | '"' :: rest => some ([], rest)
  | '\\' :: c :: rest =>
    if c = '\\' ∨ c = '"' then (readQuoted rest).map fun (text, rest) => (c :: text, rest)
    else (readQuoted (c :: rest)).map fun (text, rest) => ('\\' :: text, rest)
  | c :: rest => (readQuoted rest).map fun (text, rest) => (c :: text, rest)

/-- What a string goes on with when its first character has been read. -/
theorem map_readQuoted_eq_some_iff {c : Char} {cs text rest : List Char} :
    (readQuoted cs).map (fun (text, rest) => (c :: text, rest)) = some (text, rest) ↔
      ∃ more, readQuoted cs = some (more, rest) ∧ text = c :: more := by
  rw [Option.map_eq_some_iff]
  constructor
  · rintro ⟨⟨more, rest'⟩, hread, heq⟩
    obtain ⟨rfl, rfl⟩ := Prod.mk.inj heq
    exact ⟨more, hread, rfl⟩
  · rintro ⟨more, hread, rfl⟩
    exact ⟨(more, rest), hread, rfl⟩

/-- A backslash takes the backslash or quote after it for itself. -/
theorem readQuoted_pair {c : Char} (h : c = '\\' ∨ c = '"') (cs : List Char) :
    readQuoted ('\\' :: c :: cs) = (readQuoted cs).map fun (text, rest) => (c :: text, rest) := by
  exact if_pos h

/-- Before any other character a backslash stands for itself. -/
theorem readQuoted_backslash {c : Char} (h : ¬ (c = '\\' ∨ c = '"')) (cs : List Char) :
    readQuoted ('\\' :: c :: cs) =
      (readQuoted (c :: cs)).map fun (text, rest) => ('\\' :: text, rest) := by
  exact if_neg h

/-- A character that is no backslash and no quote stands for itself. -/
theorem readQuoted_cons {c : Char} (h : ¬ (c = '\\' ∨ c = '"')) (cs : List Char) :
    readQuoted (c :: cs) = (readQuoted cs).map fun (text, rest) => (c :: text, rest) := by
  rw [not_or] at h
  rw [readQuoted]
  · exact h.2
  · rintro d rest rfl
    exact absurd rfl h.1

/-- Something is read, if only the closing quote. -/
theorem exists_of_readQuoted {cs text rest : List Char} (h : readQuoted cs = some (text, rest)) :
    ∃ c front, cs = c :: front ++ rest := by
  fun_induction readQuoted cs generalizing text with
  | case1 => contradiction
  | case2 tail =>
      obtain ⟨-, rfl⟩ := Prod.mk.inj (Option.some.inj h)
      exact ⟨'"', [], rfl⟩
  | case3 c tail hpair ih =>
      obtain ⟨more, hread, -⟩ := map_readQuoted_eq_some_iff.mp h
      obtain ⟨c', front, rfl⟩ := ih hread
      exact ⟨'\\', c :: c' :: front, rfl⟩
  | case4 c tail hpair ih =>
      obtain ⟨more, hread, -⟩ := map_readQuoted_eq_some_iff.mp h
      obtain ⟨c', front, heq⟩ := ih hread
      exact ⟨'\\', c' :: front, by rw [heq, List.cons_append, List.cons_append]; rfl⟩
  | case5 c tail hquote hpair ih =>
      obtain ⟨more, hread, -⟩ := map_readQuoted_eq_some_iff.mp h
      obtain ⟨c', front, rfl⟩ := ih hread
      exact ⟨c, c' :: front, rfl⟩

/-- A quoted text takes at least its closing quote. -/
theorem length_lt_of_readQuoted {cs text rest : List Char}
    (h : readQuoted cs = some (text, rest)) : rest.length < cs.length := by
  obtain ⟨c, front, rfl⟩ := exists_of_readQuoted h
  simp only [List.length_append, List.length_cons]
  omega

/-- A string that ends does so whatever follows. -/
theorem readQuoted_append {cs text rest : List Char} (h : readQuoted cs = some (text, rest))
    (more : List Char) : readQuoted (cs ++ more) = some (text, rest ++ more) := by
  fun_induction readQuoted cs generalizing text with
  | case1 => contradiction
  | case2 tail =>
      obtain ⟨rfl, rfl⟩ := Prod.mk.inj (Option.some.inj h)
      rfl
  | case3 c tail hpair ih =>
      obtain ⟨text', hread, rfl⟩ := map_readQuoted_eq_some_iff.mp h
      rw [List.cons_append, List.cons_append, readQuoted_pair hpair, ih hread]
      rfl
  | case4 c tail hpair ih =>
      obtain ⟨text', hread, rfl⟩ := map_readQuoted_eq_some_iff.mp h
      have hread' := ih hread
      rw [List.cons_append] at hread'
      rw [List.cons_append, List.cons_append, readQuoted_backslash hpair, hread']
      rfl
  | case5 c tail hquote hpair ih =>
      obtain ⟨text', hread, rfl⟩ := map_readQuoted_eq_some_iff.mp h
      cases tail with
      | nil => contradiction
      | cons c' tail =>
          have hplain : ¬ (c = '\\' ∨ c = '"') :=
            not_or.mpr ⟨fun hc => hpair c' tail hc rfl, hquote⟩
          rw [List.cons_append, readQuoted_cons hplain, ih hread]
          rfl

/-! ## tokens -/

/-- What a DOT text is made of. -/
inductive Token
  | word (text : String)
  | quoted (text : String)
  | arrow
  | mark (c : Char)
  deriving DecidableEq

def isWord (c : Char) : Bool := c.isAlphanum || c == '_'

/-- The characters that are tokens by themselves. -/
def marks : List Char := ['{', '}', '[', ']', ';', ',', '=']

/-- The tokens of a text, if it consists of such. -/
def lex (cs : List Char) : Option (List Token) :=
  match cs with
  | [] => some []
  | '"' :: rest =>
    match _read : readQuoted rest with
    | none => none
    | some (text, rest) => (lex rest).map (.quoted (String.ofList text) :: ·)
  | '-' :: '>' :: rest => (lex rest).map (.arrow :: ·)
  | c :: rest =>
    if isWord c then
      (lex (rest.dropWhile isWord)).map (.word (String.ofList (c :: rest.takeWhile isWord)) :: ·)
    else if c = ' ' ∨ c = '\n' then lex rest
    else if c ∈ marks then (lex rest).map (.mark c :: ·)
    else none
termination_by cs.length
decreasing_by
  · have hlt := length_lt_of_readQuoted _read
    simp only [List.length_cons]
    omega
  · simp only [List.length_cons]
    omega
  · exact Nat.lt_succ_of_le (List.length_dropWhile_le isWord rest)
  · exact Nat.lt_succ_self _
  · exact Nat.lt_succ_self _

@[simp]
theorem lex_nil : lex [] = some [] := by
  rw [lex]

/-- A quote opens a text, which is one token. -/
theorem lex_quote_eq (cs : List Char) :
    lex ('"' :: cs) = (readQuoted cs).bind fun read =>
      (lex read.2).map (.quoted (String.ofList read.1) :: ·) := by
  rw [lex]
  split
  · next hnone =>
    rw [hnone]
    rfl
  · next hsome =>
    rw [hsome]
    rfl

theorem lex_arrow (rest : List Char) :
    lex ('-' :: '>' :: rest) = (lex rest).map (.arrow :: ·) := by
  rw [lex]

/-- Any other character begins a word, is left out, is a token by itself, or
cannot be read. -/
theorem lex_plain {c : Char} {rest : List Char} (hquote : c ≠ '"')
    (harrow : c = '-' → ∀ after, rest ≠ '>' :: after) :
    lex (c :: rest) =
      if isWord c then (lex (rest.dropWhile isWord)).map
        (.word (String.ofList (c :: rest.takeWhile isWord)) :: ·)
      else if c = ' ' ∨ c = '\n' then lex rest
      else if c ∈ marks then (lex rest).map (.mark c :: ·)
      else none := by
  rw [lex]
  · exact hquote
  · exact fun after hdash => harrow hdash after

/-- A quoted text is one token. -/
theorem lex_quote {cs text rest : List Char} (h : readQuoted cs = some (text, rest)) :
    lex ('"' :: cs) = (lex rest).map (.quoted (String.ofList text) :: ·) := by
  rw [lex_quote_eq, h, Option.bind_some]

/-- A quote is unreadable exactly if it is left open or what follows its text is unreadable. -/
theorem lex_quote_eq_none_iff {cs : List Char} :
    lex ('"' :: cs) = none ↔ ∀ text rest, readQuoted cs = some (text, rest) → lex rest = none := by
  rw [lex_quote_eq, Option.bind_eq_none_iff]
  simp only [Prod.forall, Option.map_eq_none_iff]

/-- A text does not start with just any character. -/
theorem lex_eq_none {c : Char} (hquote : c ≠ '"') (hdash : c ≠ '-') (hword : isWord c = false)
    (hblank : ¬ (c = ' ' ∨ c = '\n')) (hmark : c ∉ marks) (rest : List Char) :
    lex (c :: rest) = none := by
  rw [lex_plain hquote fun h => absurd h hdash, if_neg (by simp [hword]), if_neg hblank,
    if_neg hmark]

/-- A dash alone cannot be read. -/
theorem lex_dash_eq_none {rest : List Char} (h : ∀ after, rest = '>' :: after → lex after = none) :
    lex ('-' :: rest) = none := by
  by_cases harrow : ∃ after, rest = '>' :: after
  · obtain ⟨after, rfl⟩ := harrow
    rw [lex_arrow, h after rfl]
    rfl
  · rw [lex_plain (by decide) fun _ after heq => harrow ⟨after, heq⟩, if_neg (by decide),
      if_neg (by decide), if_neg (by decide)]

theorem lex_blank {c : Char} (h : c = ' ' ∨ c = '\n') (rest : List Char) :
    lex (c :: rest) = lex rest := by
  obtain ⟨hquote, hdash, hword⟩ : c ≠ '"' ∧ c ≠ '-' ∧ ¬ isWord c := by
    rcases h with rfl | rfl <;> decide
  rw [lex_plain hquote fun heq => absurd heq hdash, if_neg hword, if_pos h]

theorem lex_mark {c : Char} (h : c ∈ marks) (rest : List Char) :
    lex (c :: rest) = (lex rest).map (.mark c :: ·) := by
  have hothers : ∀ c ∈ marks, c ≠ '"' ∧ c ≠ '-' ∧ ¬ isWord c ∧ ¬ (c = ' ' ∨ c = '\n') := by
    simp [marks, isWord]
  obtain ⟨hquote, hdash, hword, hblank⟩ := hothers c h
  rw [lex_plain hquote fun heq => absurd heq hdash, if_neg hword, if_neg hblank, if_pos h]

/-- A word goes on as long as there are characters for it. -/
theorem lex_cons_of_isWord {c : Char} (hc : isWord c = true) (rest : List Char) :
    lex (c :: rest) = (lex (rest.dropWhile isWord)).map
      (.word (String.ofList (c :: rest.takeWhile isWord)) :: ·) := by
  have hdiffers : ∀ x, isWord x = false → c ≠ x := by
    rintro x hx rfl
    rw [hc] at hx
    contradiction
  rw [lex_plain (hdiffers '"' (by decide)) fun heq => absurd heq (hdiffers '-' (by decide)),
    if_pos hc]

/-- `cs` is read as the tokens `ts`, whatever follows. -/
def Reads (cs : List Char) (ts : List Token) : Prop :=
  ∀ rest, lex (cs ++ rest) = (lex rest).map (ts ++ ·)

theorem Reads.nil : Reads [] [] := by
  intro rest
  simp

theorem Reads.lex_eq {cs : List Char} {ts : List Token} (h : Reads cs ts) : lex cs = some ts := by
  have hnothing := h []
  rw [List.append_nil] at hnothing
  simp [hnothing]

/-- Texts that read one by one read in a row. -/
theorem Reads.append {cs ds : List Char} {ts us : List Token} (h : Reads cs ts) (h' : Reads ds us) :
    Reads (cs ++ ds) (ts ++ us) := by
  intro rest
  rw [List.append_assoc, h, h', Option.map_map]
  simp [Function.comp_def]

/-- A list of texts reads as the tokens of each in a row. -/
theorem Reads.flatMap {α : Type} {f : α → List Char} {g : α → List Token} {xs : List α}
    (h : ∀ x ∈ xs, Reads (f x) (g x)) : Reads (xs.flatMap f) (xs.flatMap g) := by
  induction xs with
  | nil => exact .nil
  | cons x xs ih =>
      rw [List.forall_mem_cons] at h
      exact h.1.append (ih h.2)

/-- A quoted string that ends where the text does. -/
theorem Reads.quoted {cs text : List Char} (h : readQuoted cs = some (text, [])) :
    Reads ('"' :: cs) [.quoted (String.ofList text)] := by
  intro rest
  rw [List.cons_append, lex_quote (readQuoted_append h rest)]
  rfl

/-- A word that something else follows. -/
theorem Reads.word {w cs : List Char} {c : Char} {ts : List Token} (hne : w ≠ [])
    (hw : ∀ x ∈ w, isWord x = true) (hcs : cs.head? = some c) (hc : isWord c = false)
    (h : Reads cs ts) : Reads (w ++ cs) (.word (String.ofList w) :: ts) := by
  obtain ⟨first, more, rfl⟩ := List.exists_cons_of_ne_nil hne
  obtain ⟨hfirst, hmore⟩ := List.forall_mem_cons.mp hw
  obtain ⟨after, rfl⟩ := List.head?_eq_some_iff.mp hcs
  intro rest
  have hrest := h rest
  rw [List.cons_append] at hrest
  rw [List.append_assoc, List.cons_append, List.cons_append, lex_cons_of_isWord hfirst,
    List.dropWhile_append_of_pos hmore, List.takeWhile_append_of_pos hmore,
    List.dropWhile_cons_of_neg (by simp [hc]), List.takeWhile_cons_of_neg (by simp [hc]), hrest,
    Option.map_map, List.append_nil]
  rfl

/-- The last character does not belong to a word. -/
def Closed (cs : List Char) : Prop := ∀ c ∈ cs.getLast?, isWord c = false

instance (cs : List Char) : Decidable (Closed cs) := Option.decidableForallMem _

/-- A text that ends outside a word does so from anywhere on. -/
theorem Closed.of_append (front : List Char) {cs : List Char} (h : Closed (front ++ cs)) :
    Closed cs := by
  intro c hc
  refine h c ?_
  rw [List.getLast?_append, Option.mem_def.mp hc]
  rfl

/-- A text that is closed does not end with a word. -/
theorem Closed.dropWhile_ne_nil {c : Char} {cs : List Char} (h : Closed (c :: cs))
    (hc : isWord c = true) : cs.dropWhile isWord ≠ [] := by
  intro hnil
  have hall : ∀ x ∈ c :: cs, isWord x = true :=
    List.forall_mem_cons.mpr ⟨hc, List.dropWhile_eq_nil_iff.mp hnil⟩
  have hlast := h _ (List.getLast?_eq_some_getLast (List.cons_ne_nil c cs))
  rw [hall _ (List.getLast_mem _)] at hlast
  contradiction

/-- A word is read whatever follows the text it begins. -/
theorem Reads.of_dropWhile {c : Char} {rest : List Char} {us : List Token}
    (hclosed : Closed (c :: rest)) (hword : isWord c = true)
    (h : Closed (rest.dropWhile isWord) → Reads (rest.dropWhile isWord) us) :
    Reads (c :: rest) (.word (String.ofList (c :: rest.takeWhile isWord)) :: us) := by
  have hne := hclosed.dropWhile_ne_nil hword
  have hsplit := List.takeWhile_append_dropWhile (p := isWord) (l := rest)
  rw [← hsplit] at hclosed
  have hrest := h (Closed.of_append (c :: rest.takeWhile isWord) hclosed)
  have hw : ∀ x ∈ c :: rest.takeWhile isWord, isWord x = true :=
    List.forall_mem_cons.mpr ⟨hword, fun x hx => List.mem_takeWhile_imp hx⟩
  have hd := List.head_dropWhile_not isWord hne
  obtain ⟨d, after, hafter⟩ := List.exists_cons_of_ne_nil hne
  simp only [hafter, List.head_cons] at hrest hd
  have hreads := Reads.word (List.cons_ne_nil c _) hw rfl hd hrest
  rwa [List.cons_append, ← hafter, hsplit] at hreads

/-- **What follows has no influence**, unless a word goes on in it. -/
theorem reads_of_lex {cs : List Char} {ts : List Token} (h : lex cs = some ts)
    (hend : Closed cs) : Reads cs ts := by
  fun_induction lex cs generalizing ts with
  | case1 =>
      obtain rfl := Option.some.inj h
      exact .nil
  | case2 rest hread => contradiction
  | case3 rest text rest' hread ih =>
      obtain ⟨us, hus, rfl⟩ := Option.map_eq_some_iff.mp h
      intro more
      rw [List.cons_append, lex_quote (readQuoted_append hread more)]
      obtain ⟨c, front, rfl⟩ := exists_of_readQuoted hread
      rw [ih hus (Closed.of_append ('"' :: c :: front) hend), Option.map_map]
      rfl
  | case4 rest ih =>
      obtain ⟨us, hus, rfl⟩ := Option.map_eq_some_iff.mp h
      intro more
      rw [List.cons_append, List.cons_append, lex_arrow,
        ih hus (Closed.of_append ['-', '>'] hend), Option.map_map]
      rfl
  | case5 c rest hquote harrow hword ih =>
      obtain ⟨us, hus, rfl⟩ := Option.map_eq_some_iff.mp h
      exact Reads.of_dropWhile hend hword fun hclosed => ih hus hclosed
  | case6 c rest hquote harrow hword hblank ih =>
      intro more
      rw [List.cons_append, lex_blank hblank, ih h (Closed.of_append [c] hend)]
  | case7 c rest hquote harrow hword hblank hmark ih =>
      obtain ⟨us, hus, rfl⟩ := Option.map_eq_some_iff.mp h
      intro more
      rw [List.cons_append, lex_mark hmark, ih hus (Closed.of_append [c] hend),
        Option.map_map]
      rfl
  | case8 => contradiction

/-! ## statements -/

/-- A statement of a directed graph. Attributes are listed with their values. -/
inductive Statement
  | setting (key value : String)
  /-- Attributes for everything of a kind that follows. -/
  | defaults (kind : String) (attributes : List (String × String))
  | node (name : String) (attributes : List (String × String))
  | edge (source target : String) (attributes : List (String × String))
  deriving DecidableEq

def Token.text? : Token → Option String
  | .word text | .quoted text => some text
  | .arrow | .mark _ => none

/-- The attributes in brackets of which the opening one has been read. -/
def attributes? : List Token → Option (List (String × String))
  | [.mark ']'] => some []
  | [.word key, .mark '=', value, .mark ']'] => value.text?.map fun value => [(key, value)]
  | .word key :: .mark '=' :: value :: .mark ',' :: rest =>
    value.text?.bind fun value => (attributes? rest).map ((key, value) :: ·)
  | _ => none

def trailing? : List Token → Option (List (String × String))
  | [] => some []
  | .mark '[' :: rest => attributes? rest
  | _ => none

/-- The words that are no names of nodes. -/
def kinds : List String := ["graph", "node", "edge"]

/-- The statement that tokens are, the semicolon left out. -/
def statement? : List Token → Option Statement
  | [.word key, .mark '=', value] => value.text?.map (.setting key ·)
  | .word source :: .arrow :: .word target :: rest => (trailing? rest).map (.edge source target ·)
  | .word name :: rest => (trailing? rest).map fun attributes =>
    if name ∈ kinds then .defaults name attributes else .node name attributes
  | _ => none

/-- The statements up to the closing brace at the end; `current` is what has been
read of the first one. -/
def statements (current : List Token) : List Token → Option (List Statement)
  | [] => none
  | [.mark '}'] => if current = [] then some [] else none
  | .mark ';' :: rest =>
    (statement? current).bind fun first => (statements [] rest).map (first :: ·)
  | t :: rest => statements (current ++ [t]) rest

/-- The name and the statements of the graph that a text describes. -/
def read (text : String) : Option (String × List Statement) :=
  match lex text.toList with
  | some (.word "digraph" :: .word name :: .mark '{' :: rest) =>
    (statements [] rest).map fun statements => (name, statements)
  | _ => none

/-- A token that ends no statement. -/
def Token.Inner (t : Token) : Prop := t ≠ .mark ';' ∧ t ≠ .mark '}'

instance (t : Token) : Decidable t.Inner := inferInstanceAs (Decidable (_ ∧ _))

/-- The statements are split at the semicolons. -/
theorem statements_append {ts : List Token} (hts : ∀ t ∈ ts, t.Inner) (current rest : List Token) :
    statements current (ts ++ .mark ';' :: rest) =
      (statement? (current ++ ts)).bind fun first => (statements [] rest).map (first :: ·) := by
  induction ts generalizing current with
  | nil => rw [List.nil_append, statements, List.append_nil]
  | cons t ts ih =>
      obtain ⟨⟨hsemicolon, hbrace⟩, hts⟩ := List.forall_mem_cons.mp hts
      rw [List.cons_append, statements, ih hts, List.append_assoc]
      · rfl
      · rintro rfl
        exact absurd rfl hbrace
      · rintro rfl
        exact absurd rfl hsemicolon

/-- The tokens are a statement, semicolon included. -/
def Says (ts : List Token) (s : Statement) : Prop :=
  ∃ front, ts = front ++ [.mark ';'] ∧ (∀ t ∈ front, t.Inner) ∧ statement? front = some s

/-- **Statements are read one by one.** -/
theorem statements_flatMap {α : Type} {f : α → List Token} {g : α → Statement} {xs : List α}
    (h : ∀ x ∈ xs, Says (f x) (g x)) (rest : List Token) :
    statements [] (xs.flatMap f ++ rest) = (statements [] rest).map (xs.map g ++ ·) := by
  induction xs with
  | nil => simp
  | cons x xs ih =>
      obtain ⟨⟨front, hfront, hinner, hsays⟩, hxs⟩ := List.forall_mem_cons.mp h
      rw [List.flatMap_cons, hfront, List.append_assoc, List.append_assoc, List.singleton_append,
        statements_append hinner, List.nil_append, hsays, ih hxs, Option.bind_some,
        Option.map_map]
      rfl

end SchemaCatalog.Dot
