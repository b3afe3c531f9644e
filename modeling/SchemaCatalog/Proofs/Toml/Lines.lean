import SchemaCatalog.Proofs.Toml.Quoted
import SchemaCatalog.Toml.Document

/-!
# SchemaCatalog.Proofs.Toml.Lines

A settings file that is written is read line by line as what was written
(`read_write`): each section as a header and a line for each entry, with an
empty line between sections.

A line is read off the front of a text whatever stands behind it, so texts are
put together as their lines are (`Spells.append`).
-/

namespace SchemaCatalog.Toml

variable {rest : List Char}

/-! ## Values -/

def Entry.value : Entry → Value
  | flag b => .flag b
  | text s => .text s
  | texts ss => .list (ss.map .text)

/-- A written text is read back as a scalar. -/
theorem takeScalar_writeText (hrest : NoQuote rest) (s : String) :
    takeScalar ((writeText s).toList ++ rest) = some (.text s, rest) := by
  have hread := takeText_writeText hrest s
  obtain ⟨more, hmore | hmore⟩ := writeText_eq_cons s
  · rw [hmore, List.cons_append] at hread ⊢
    simp [takeScalar, hread]
  · rw [hmore, List.cons_append] at hread ⊢
    simp [takeScalar, hread]

/-- A written text is read back as a value. -/
theorem takeValue_writeText (room : Nat) (hrest : NoQuote rest) (s : String) :
    takeValue room ((writeText s).toList ++ rest) = some (.text s, rest) := by
  have hread := takeScalar_writeText hrest s
  cases room with
  | zero => exact hread
  | succ room =>
      obtain ⟨more, hmore | hmore⟩ := writeText_eq_cons s
      · rw [hmore, List.cons_append] at hread ⊢
        exact hread
      · rw [hmore, List.cons_append] at hread ⊢
        exact hread

/-- A text in a list of several, on a line of its own. -/
def spellItem (s : String) : List Char := ("    " ++ writeText s ++ ",\n").toList

theorem toList_join_items (ss : List String) :
    (String.join (ss.map fun s => "    " ++ writeText s ++ ",\n")).toList = ss.flatMap spellItem := by
  rw [String.toList_join, List.flatMap_map]
  rfl

/-- Blanks and line ends do not reach into a text. -/
theorem skipGaps?_writeText (s : String) (rest : List Char) :
    skipGaps? false ((writeText s).toList ++ rest) = some ((writeText s).toList ++ rest) := by
  obtain ⟨more, hmore | hmore⟩ := writeText_eq_cons s
  · rw [hmore]
    rfl
  · rw [hmore]
    rfl

/-- A text is not taken for the end of a list. -/
theorem writeText_ne_bracket (s : String) (rest more : List Char) :
    (writeText s).toList ++ rest ≠ ']' :: more := by
  obtain ⟨tail, htail | htail⟩ := writeText_eq_cons s
  · simp [htail]
  · simp [htail]

section

variable {element : Scan Value} {fuel : Nat} {done : List Value} {v : Value}
  {cs item behind : List Char}

/-- The end of a list. -/
theorem takeItems_end (h : skipGaps? false cs = some (']' :: rest)) :
    takeItems element (fuel + 1) done cs = some (done.reverse, rest) := by
  simp [takeItems, h]

/-- An item and the comma behind it. -/
theorem takeItems_comma (h : skipGaps? false cs = some item) (hitem : ∀ more, item ≠ ']' :: more)
    (hv : element item = some (v, behind)) (hbehind : skipGaps? false behind = some (',' :: rest)) :
    takeItems element (fuel + 1) done cs = takeItems element fuel (v :: done) rest := by
  simp [takeItems, h, hv, hbehind]

/-- The last item, without a comma. -/
theorem takeItems_last (h : skipGaps? false cs = some item) (hitem : ∀ more, item ≠ ']' :: more)
    (hv : element item = some (v, behind)) (hbehind : skipGaps? false behind = some (']' :: rest)) :
    takeItems element (fuel + 1) done cs = some ((v :: done).reverse, rest) := by
  simp [takeItems, h, hv, hbehind]

end

/-- The written items of a list are read back in order. -/
theorem takeItems_spellItem (room : Nat) (ss : List String) {fuel : Nat} (h : ss.length < fuel)
    (done : List Value) :
    takeItems (takeValue room) fuel done ('\n' :: (ss.flatMap spellItem ++ ']' :: rest)) =
      some (done.reverse ++ ss.map .text, rest) := by
  induction ss generalizing fuel done with
  | nil =>
      cases fuel with
      | zero => contradiction
      | succ fuel =>
          have hend : skipGaps? false ('\n' :: ([].flatMap spellItem ++ ']' :: rest)) =
              some (']' :: rest) := rfl
          rw [takeItems_end hend]
          simp
  | cons s ss ih =>
      cases fuel with
      | zero => contradiction
      | succ fuel =>
          have hgaps : skipGaps? false ('\n' :: ((s :: ss).flatMap spellItem ++ ']' :: rest)) =
              some ((writeText s).toList ++ ',' :: '\n' :: (ss.flatMap spellItem ++ ']' :: rest)) := by
            have htext := skipGaps?_writeText s (',' :: '\n' :: (ss.flatMap spellItem ++ ']' :: rest))
            simpa [spellItem, skipGaps?, isBlank] using htext
          rw [takeItems_comma hgaps (writeText_ne_bracket _ _)
            (takeValue_writeText room ⟨by simp, by simp⟩ s) rfl, ih (by simpa using h)]
          simp

/-- A written item takes a character at least. -/
theorem length_le_flatMap_spellItem (ss : List String) :
    ss.length ≤ (ss.flatMap spellItem).length := by
  rw [List.length_flatMap]
  induction ss with
  | nil => simp
  | cons s ss ih =>
      rw [List.map_cons, List.sum_cons, List.length_cons]
      have hpos : 1 ≤ (spellItem s).length := by simp [spellItem]
      omega

/-- A bracket opens a list. -/
theorem takeValue_list (room : Nat) (cs : List Char) :
    takeValue (room + 1) ('[' :: cs) =
      (takeItems (takeValue room) (cs.length + 1) [] cs).map fun r => (.list r.1, r.2) := rfl

/-- **A value that is written is read back.** -/
theorem takeValue_write (hrest : NoQuote rest) (e : Entry) :
    takeValue maxDepth (e.write.toList ++ rest) = some (e.value, rest) := by
  cases e with
  | flag b => cases b <;> rfl
  | text s => exact takeValue_writeText maxDepth hrest s
  | texts ss =>
      match ss with
      | [] => rfl
      | [s] =>
          have hwritten : (Entry.texts [s]).write.toList ++ rest =
              '[' :: ((writeText s).toList ++ ']' :: rest) := by
            simp [Entry.write]
          rw [hwritten, maxDepth, takeValue_list,
            takeItems_last (skipGaps?_writeText s _) (writeText_ne_bracket _ _)
              (takeValue_writeText _ ⟨by simp, by simp⟩ s) rfl]
          rfl
      | s :: s' :: ss =>
          have hwritten : (Entry.texts (s :: s' :: ss)).write.toList ++ rest =
              '[' :: '\n' :: ((s :: s' :: ss).flatMap spellItem ++ ']' :: rest) := by
            simp only [Entry.write, String.toList_append, toList_join_items]
            simp
          have hlength := length_le_flatMap_spellItem (s :: s' :: ss)
          rw [hwritten, maxDepth, takeValue_list, takeItems_spellItem _ _ (by simp at hlength ⊢; omega)]
          rfl

/-! ## Keys -/

/-- The parts of a key, with dots between them. -/
def spellKey (key : List String) : List Char := ".".toList.intercalate (key.map (writeKey · |>.toList))

/-- What a key begins with is no blank and begins no comment, no line end and no
header. -/
theorem writeKey_begins (key : String) :
    ∃ d more, (writeKey key).toList = d :: more ∧
      isBlank d = false ∧ d ≠ '#' ∧ d ≠ '\n' ∧ d ≠ '\r' ∧ d ≠ '[' := by
  obtain ⟨d, more, heq, hd⟩ := writeKey_eq_cons key
  refine ⟨d, more, heq, ?_⟩
  rcases hd with hd | rfl | rfl
  · refine ⟨?_, ?_, ?_, ?_, ?_⟩
    · rw [Bool.eq_false_iff]
      intro hblank
      simp only [isBlank, Bool.or_eq_true, decide_eq_true_eq] at hblank
      rcases hblank with rfl | rfl <;> contradiction
    all_goals rintro rfl; contradiction
  · decide
  · decide

theorem skipBlanks_cons {c : Char} (h : isBlank c = false) (cs : List Char) :
    skipBlanks (c :: cs) = c :: cs := by
  simp [skipBlanks, h]

/-- No written key starts with blanks. -/
theorem skipBlanks_writeKey (key : String) (rest : List Char) :
    skipBlanks ((writeKey key).toList ++ rest) = (writeKey key).toList ++ rest := by
  obtain ⟨d, more, heq, hblank, -⟩ := writeKey_begins key
  rw [heq]
  exact skipBlanks_cons hblank _

theorem spellKey_singleton (key : String) : spellKey [key] = (writeKey key).toList := by
  simp [spellKey]

theorem spellKey_cons_cons (part part' : String) (key : List String) :
    spellKey (part :: part' :: key) = (writeKey part).toList ++ '.' :: spellKey (part' :: key) := by
  simp [spellKey, List.intercalate_cons_cons]

/-- A key is not taken for a second bracket. -/
theorem spellKey_ne_bracket {key : List String} (hne : key ≠ []) (rest more : List Char) :
    spellKey key ++ rest ≠ '[' :: more := by
  match key with
  | [] => contradiction
  | [part] =>
      obtain ⟨d, tail, heq, -, -, -, -, hbracket⟩ := writeKey_begins part
      simp [spellKey_singleton, heq, hbracket]
  | part :: part' :: key =>
      obtain ⟨d, tail, heq, -, -, -, -, hbracket⟩ := writeKey_begins part
      simp [spellKey_cons_cons, heq, hbracket]

/-- A written key is read back part by part. -/
theorem takeKeyParts_spellKey {key : List String} (hne : key ≠ []) {fuel : Nat}
    (hfuel : key.length ≤ fuel) (hrest : ∀ c ∈ rest.head?, isKeyChar c = false)
    (hdot : ∀ more, skipBlanks rest ≠ '.' :: more) :
    takeKeyParts fuel (spellKey key ++ rest) = some (key, skipBlanks rest) := by
  induction key generalizing fuel with
  | nil => contradiction
  | cons part key ih =>
      cases fuel with
      | zero => simp at hfuel
      | succ fuel =>
          cases key with
          | nil =>
              rw [spellKey_singleton, takeKeyParts, skipBlanks_writeKey, takeKeyPart_writeKey hrest]
              simp
          | cons part' key =>
              have hbehind : ∀ c ∈ ('.' :: (spellKey (part' :: key) ++ rest)).head?,
                  isKeyChar c = false := by
                simp; decide
              have hmore := ih (by simp) (by simpa using hfuel)
              rw [spellKey_cons_cons, List.append_assoc, List.cons_append, takeKeyParts,
                skipBlanks_writeKey, takeKeyPart_writeKey hbehind]
              simp [skipBlanks, isBlank, hmore]

/-! ## Lines -/

def Section.lines (s : Section) : List Line :=
  .header s.path :: s.entries.map fun e => .pair [e.1] e.2.value

theorem lineEnd?_newline (cs : List Char) : lineEnd? ('\n' :: cs) = some cs := rfl

/-- A line does not end at a character of its content. -/
theorem lineEnd?_cons {c : Char} (hblank : isBlank c = false) (hcomment : c ≠ '#')
    (hnewline : c ≠ '\n') (hreturn : c ≠ '\r') (cs : List Char) : lineEnd? (c :: cs) = none := by
  rw [lineEnd?, skipBlanks_cons hblank]
  simp [hcomment, lineBreak?, hnewline, hreturn]

/-- A line that says something, up to its end. -/
theorem takeFileLine_content {cs : List Char} {line : Line} (hend : lineEnd? cs = none)
    (hcontent : takeContent (skipBlanks cs) = some (line, '\n' :: rest)) :
    takeFileLine cs = some (line, rest) := by
  simp [takeFileLine, hend, hcontent, lineEnd?_newline]

theorem takeFileLine_empty : takeFileLine ('\n' :: rest) = some (.empty, rest) := rfl

def spellHeader (path : List String) : List Char :=
  ("[" ++ ".".intercalate (path.map writeKey) ++ "]\n").toList

/-- A written header is read back. -/
theorem takeFileLine_spellHeader {path : List String} (hne : path ≠ [])
    (hlength : path.length < maxKeyParts) (rest : List Char) :
    takeFileLine (spellHeader path ++ rest) = some (.header path, rest) := by
  have hspelled : spellHeader path ++ rest = '[' :: (spellKey path ++ ']' :: '\n' :: rest) := by
    simp [spellHeader, spellKey, String.toList_intercalate, Function.comp_def]
  have hkey : takeKey (spellKey path ++ ']' :: '\n' :: rest) = some (path, ']' :: '\n' :: rest) :=
    takeKeyParts_spellKey hne (Nat.le_sub_one_of_lt hlength) (by simp; decide)
      (by simp [skipBlanks, isBlank])
  rw [hspelled]
  refine takeFileLine_content (lineEnd?_cons rfl (by decide) (by decide) (by decide) _) ?_
  have hbracket := spellKey_ne_bracket hne (']' :: '\n' :: rest)
  rw [skipBlanks_cons rfl]
  simp [takeContent, hkey]

/-- What a value begins with is no blank. -/
theorem skipBlanks_write (e : Entry) (rest : List Char) :
    skipBlanks (e.write.toList ++ rest) = e.write.toList ++ rest := by
  cases e with
  | flag b => cases b <;> rfl
  | text s =>
      obtain ⟨more, hmore | hmore⟩ := writeText_eq_cons s <;>
      · rw [Entry.write, hmore]
        rfl
  | texts ss =>
      match ss with
      | [] => rfl
      | [s] =>
          simp only [Entry.write, String.toList_append]
          rfl
      | s :: s' :: ss =>
          simp only [Entry.write, String.toList_append]
          rfl

def spellPair (e : String × Entry) : List Char :=
  (writeKey e.1 ++ " = " ++ e.2.write ++ "\n").toList

/-- A written pair is read back. -/
theorem takeFileLine_spellPair (e : String × Entry) (rest : List Char) :
    takeFileLine (spellPair e ++ rest) = some (.pair [e.1] e.2.value, rest) := by
  have hspelled : spellPair e ++ rest =
      (writeKey e.1).toList ++ ' ' :: '=' :: ' ' :: (e.2.write.toList ++ '\n' :: rest) := by
    simp [spellPair]
  have hkey : takeKey ((writeKey e.1).toList ++
        ' ' :: '=' :: ' ' :: (e.2.write.toList ++ '\n' :: rest)) =
      some ([e.1], '=' :: ' ' :: (e.2.write.toList ++ '\n' :: rest)) := by
    rw [← spellKey_singleton]
    exact takeKeyParts_spellKey (by simp) (by simp [maxKeyParts]) (by simp; decide)
      (by simp [skipBlanks, isBlank])
  have hvalue : takeValue maxDepth (skipBlanks (' ' :: (e.2.write.toList ++ '\n' :: rest))) =
      some (e.2.value, '\n' :: rest) := by
    have hblank : skipBlanks (' ' :: (e.2.write.toList ++ '\n' :: rest)) =
        skipBlanks (e.2.write.toList ++ '\n' :: rest) := rfl
    rw [hblank, skipBlanks_write, takeValue_write ⟨by simp, by simp⟩]
  have hpair : takePair (takeValue maxDepth) ((writeKey e.1).toList ++
        ' ' :: '=' :: ' ' :: (e.2.write.toList ++ '\n' :: rest)) =
      some (([e.1], e.2.value), '\n' :: rest) := by
    simp [takePair, hkey, hvalue]
  obtain ⟨d, more, heq, hblank, hcomment, hnewline, hreturn, hbracket⟩ := writeKey_begins e.1
  rw [hspelled]
  refine takeFileLine_content ?_ ?_
  · rw [heq]
    exact lineEnd?_cons hblank hcomment hnewline hreturn _
  · rw [skipBlanks_writeKey]
    rw [heq, List.cons_append] at hpair ⊢
    simp [takeContent, hbracket, hpair]

/-! ## Documents -/

/-- A text that is read as some lines, whatever stands behind it. -/
structure Spells (text : List Char) (lines : List Line) : Prop where
  /-- Each line takes a character at least. -/
  length : lines.length ≤ text.length
  take : ∀ rest fuel,
    takeLines (lines.length + fuel) (text ++ rest) = (takeLines fuel rest).map (lines ++ ·)

namespace Spells

theorem nil : Spells [] [] := ⟨Nat.le_refl _, fun rest fuel => by simp⟩

/-- Texts that spell their lines do so in a row. -/
theorem append {text text' : List Char} {lines lines' : List Line} (h : Spells text lines)
    (h' : Spells text' lines') : Spells (text ++ text') (lines ++ lines') where
  length := by
    rw [List.length_append, List.length_append]
    exact Nat.add_le_add h.length h'.length
  take rest fuel := by
    rw [List.length_append, Nat.add_assoc, List.append_assoc, h.take, h'.take]
    simp [Function.comp_def]

/-- A text that is taken for a line spells it. -/
theorem line {text : List Char} {line : Line} (hne : text ≠ [])
    (h : ∀ rest, takeFileLine (text ++ rest) = some (line, rest)) : Spells text [line] where
  length := List.length_pos_iff.mpr hne
  take rest fuel := by
    have htext : text ++ rest ≠ [] := by simp [hne]
    rw [List.length_singleton, Nat.add_comm]
    simp only [takeLines, h, Option.bind_eq_bind, Option.bind_some]
    cases takeLines fuel rest <;> rfl

/-- Texts that spell a line each spell the list of them. -/
theorem flatMap {α : Type} {text : α → List Char} {line : α → Line}
    (h : ∀ a, Spells (text a) [line a]) (as : List α) :
    Spells (as.flatMap text) (as.map line) := by
  induction as with
  | nil => exact nil
  | cons a as ih => exact (h a).append ih

/-- A text is read as its lines. -/
theorem takeLines_eq {text : List Char} {lines : List Line} (h : Spells text lines) :
    takeLines text.length text = some lines := by
  obtain ⟨fuel, hfuel⟩ := Nat.exists_eq_add_of_le h.length
  have htake := h.take [] fuel
  rw [List.append_nil, ← hfuel] at htake
  rw [htake]
  cases fuel <;> simp [takeLines]

end Spells

theorem spellPair_ne_nil (e : String × Entry) : spellPair e ≠ [] := by simp [spellPair]

/-- The lines of sections, with an empty line between them. -/
def linesOf (ss : List Section) : List Line := [Line.empty].intercalate (ss.map Section.lines)

/-- A path that a header can have. -/
def Section.Proper (s : Section) : Prop := s.path ≠ [] ∧ s.path.length < maxKeyParts

/-- A written section spells its lines. -/
theorem spells_section {s : Section} (h : s.Proper) : Spells s.write.toList s.lines := by
  have hwritten : s.write.toList = spellHeader s.path ++ s.entries.flatMap spellPair := by
    rw [Section.write, String.toList_append, String.toList_join, List.flatMap_map]
    rfl
  have hheader : Spells (spellHeader s.path) [.header s.path] :=
    .line (by simp [spellHeader]) (takeFileLine_spellHeader h.1 h.2)
  rw [hwritten]
  exact hheader.append (.flatMap
    (fun e => .line (spellPair_ne_nil e) (takeFileLine_spellPair e)) s.entries)

/-- The written sections spell all of their lines. -/
theorem spells_write {ss : List Section} (h : ∀ s ∈ ss, s.Proper) :
    Spells (write ss).toList (linesOf ss) := by
  rw [write, String.toList_intercalate, List.map_map, linesOf]
  induction ss with
  | nil => exact .nil
  | cons s ss ih =>
      have hfirst := spells_section (h s List.mem_cons_self)
      cases ss with
      | nil => simpa using hfirst
      | cons s' ss =>
          have hempty : Spells ['\n'] [.empty] := .line (by simp) fun _ => takeFileLine_empty
          have hmore := ih fun s'' hs => h s'' (List.mem_cons_of_mem _ hs)
          rw [List.map_cons, List.map_cons, List.map_cons, List.map_cons,
            List.intercalate_cons_cons, List.intercalate_cons_cons]
          exact (hfirst.append hempty).append hmore

/-- A file with sections begins with a bracket, so with no byte order mark. -/
theorem head?_write (s : Section) (ss : List Section) :
    (write (s :: ss)).toList.head? = some '[' := by
  cases ss with
  | nil => simp [write, Section.write]
  | cons s' ss => simp [write, Section.write, String.intercalate_cons_cons]

/-- **A file that is written is read as its lines.** -/
theorem read_write {ss : List Section} (h : ∀ s ∈ ss, s.Proper) :
    read (write ss) = ofLines (linesOf ss) := by
  have hmark : skipMark (write ss).toList = (write ss).toList := by
    cases ss with
    | nil => rfl
    | cons s ss =>
        obtain ⟨more, hmore⟩ := List.head?_eq_some_iff.mp (head?_write s ss)
        rw [hmore]
        rfl
  rw [read, hmark, (spells_write h).takeLines_eq, Option.bind_some]

end SchemaCatalog.Toml
