import SchemaCatalog.Proofs.Toml.Entries
import SchemaCatalog.Toml.Document

/-!
# SchemaCatalog.Proofs.Toml.Distinct

What is read from a settings file never has a key twice, at any depth and
wherever its tables come from: headers, dotted keys, or braces
(`distinct_of_read`).

The tables under construction are judged by what they will be in the end
(`finishEntries`).  Each change of them keeps their keys apart (`Careful`), also
at the end of a path (`careful_changeAt`).
-/

namespace SchemaCatalog.Toml

/-- No table in the value has a key twice. -/
inductive Value.Distinct : Value → Prop
  | text (t : String) : Distinct (.text t)
  | integer (n : Int) : Distinct (.integer n)
  | float (x : Decimal.Binary64) : Distinct (.float x)
  | flag (b : Bool) : Distinct (.flag b)
  | list {items : List Value} (items_distinct : ∀ v ∈ items, v.Distinct) : Distinct (.list items)
  | table {es : List (String × Value)} (nodup : (es.map (·.1)).Nodup)
      (entries_distinct : ∀ e ∈ es, e.2.Distinct) : Distinct (.table es)

/-- The entries make up a table without a key that comes twice. -/
structure Distinct (es : List (String × Value)) : Prop where
  nodup : (es.map (·.1)).Nodup
  values : ∀ e ∈ es, e.2.Distinct

namespace Distinct

variable {es : List (String × Value)} {key : String} {v : Value}

theorem nil : Distinct [] := ⟨List.nodup_nil, by simp⟩

theorem of_table (h : (Value.table es).Distinct) : Distinct es := by
  cases h with
  | table nodup values => exact ⟨nodup, values⟩

theorem table (h : Distinct es) : (Value.table es).Distinct := .table h.nodup h.values

theorem of_find? (h : Distinct es) (hfind : find? es key = some v) : v.Distinct :=
  h.values _ (mem_of_find? hfind)

/-- Storing a distinct value keeps the keys distinct. -/
theorem store (h : Distinct es) (hv : v.Distinct) : Distinct (store key v es) := by
  refine ⟨nodup_keys_store h.nodup, fun e he => ?_⟩
  rcases mem_of_mem_store he with rfl | he
  · exact hv
  · exact h.values e he

/-- A new entry may be appended. -/
theorem append (h : Distinct es) (hnew : find? es key = none) (hv : v.Distinct) :
    Distinct (es ++ [(key, v)]) := by
  have hkey : key ∉ es.map (·.1) := by
    rw [← isSome_find?_iff, hnew]
    exact Bool.false_ne_true
  refine ⟨?_, fun e he => ?_⟩
  · rw [List.map_append, List.map_singleton, List.nodup_append]
    refine ⟨h.nodup, List.nodup_singleton _, fun k hk k' hk' => ?_⟩
    obtain rfl := List.mem_singleton.mp hk'
    exact fun heq => hkey (heq ▸ hk)
  · rcases List.mem_append.mp he with he | he
    · exact h.values e he
    · obtain rfl := List.mem_singleton.mp he
      exact hv

end Distinct

/-! ## Tables under construction -/

/-- Finishing changes no key. -/
theorem finishEntries_eq (es : Entries) : finishEntries es = es.map fun e => (e.1, e.2.finish) := by
  induction es with
  | nil => rfl
  | cons e es ih => rw [finishEntries, ih, List.map_cons]

theorem finishElements_eq (elements : List Entries) :
    finishElements elements = elements.map fun es => .table (finishEntries es) := by
  induction elements with
  | nil => rfl
  | cons es elements ih => rw [finishElements, ih, List.map_cons]

section

variable {es : Entries} {key : String} {item : Item}

/-- The finished entry of a key is its entry, finished. -/
theorem find?_finishEntries : find? (finishEntries es) key = (find? es key).map Item.finish := by
  induction es with
  | nil => rfl
  | cons e es ih =>
      rw [finishEntries, find?_cons, find?_cons, ih]
      split <;> rfl

/-- Storing and finishing can be exchanged. -/
theorem finishEntries_store :
    finishEntries (store key item es) = store key item.finish (finishEntries es) := by
  induction es with
  | nil => rfl
  | cons e es ih =>
      rw [finishEntries, store, store]
      split
      · rfl
      · rw [finishEntries, ih]

theorem finishEntries_append :
    finishEntries (es ++ [(key, item)]) = finishEntries es ++ [(key, item.finish)] := by
  rw [finishEntries_eq, finishEntries_eq, List.map_append, List.map_singleton]

end

/-! ## Changes -/

/-- A change that does not give a table a key twice. -/
def Careful (change : Change) : Prop :=
  ∀ origin es origin' es', Distinct (finishEntries es) → change origin es = some (origin', es') →
    Distinct (finishEntries es')

/-- Adding a value repeats no key. -/
theorem careful_addValue (isDotted : Bool) (key : String) {v : Value} (hv : v.Distinct) :
    Careful (addValue isDotted key v) := by
  intro origin es origin' es' hes h
  rw [addValue] at h
  split at h
  · next hnew =>
    obtain ⟨-, hnone⟩ := Bool.and_eq_true_iff.mp hnew
    obtain ⟨-, rfl⟩ := Prod.mk.inj (Option.some.inj h)
    rw [finishEntries_append]
    refine hes.append ?_ hv
    rw [find?_finishEntries, Option.isNone_iff_eq_none.mp hnone, Option.map_none]
  · contradiction

/-- Adding a table repeats no key. -/
theorem careful_addTable (key : String) : Careful (addTable key) := by
  intro origin es origin' es' hes h
  rw [addTable] at h
  split at h
  · next hnone =>
    obtain ⟨-, rfl⟩ := Prod.mk.inj (Option.some.inj h)
    rw [finishEntries_append]
    exact hes.append (by rw [find?_finishEntries, hnone, Option.map_none]) Distinct.nil.table
  · next inner hsome =>
    obtain ⟨-, rfl⟩ := Prod.mk.inj (Option.some.inj h)
    rw [finishEntries_store]
    have hinner : (Item.table .implied inner).finish.Distinct :=
      hes.of_find? (by rw [find?_finishEntries, hsome, Option.map_some])
    exact hes.store hinner
  · contradiction

/-- The tables of a list stay as they are when others are put behind some of them. -/
theorem distinct_tables {elements more : List Entries} (h : (Item.tables elements).finish.Distinct)
    (hmore : ∀ es ∈ more, Distinct (finishEntries es)) {front : List Entries}
    (hfront : ∀ es ∈ front, es ∈ elements) : (Item.tables (front ++ more)).finish.Distinct := by
  rw [Item.finish, finishElements_eq] at h ⊢
  cases h with
  | list hitems =>
      refine .list fun v hv => ?_
      obtain ⟨es, hes, rfl⟩ := List.mem_map.mp hv
      rcases List.mem_append.mp hes with hes | hes
      · exact hitems _ (List.mem_map_of_mem (hfront es hes))
      · exact (hmore es hes).table

/-- Adding an element to a list of tables repeats no key. -/
theorem careful_addElement (key : String) : Careful (addElement key) := by
  intro origin es origin' es' hes h
  have hnil : ∀ es ∈ [([] : Entries)], Distinct (finishEntries es) := by
    intro es hes
    obtain rfl := List.mem_singleton.mp hes
    exact .nil
  rw [addElement] at h
  split at h
  · next hnone =>
    obtain ⟨-, rfl⟩ := Prod.mk.inj (Option.some.inj h)
    rw [finishEntries_append]
    refine hes.append (by rw [find?_finishEntries, hnone, Option.map_none]) ?_
    have hnone : (Item.tables []).finish.Distinct := .list (by simp [finishElements])
    exact distinct_tables hnone hnil fun es hes => hes
  · next elements hsome =>
    obtain ⟨-, rfl⟩ := Prod.mk.inj (Option.some.inj h)
    rw [finishEntries_store]
    have helements : (Item.tables elements).finish.Distinct :=
      hes.of_find? (by rw [find?_finishEntries, hsome, Option.map_some])
    exact hes.store (distinct_tables helements hnil fun es hes => hes)
  · contradiction

/-- A careful change at the end of a path is careful. -/
theorem careful_changeAt (fresh : Origin) {change : Change} (hchange : Careful change)
    (path : List String) : Careful (changeAt fresh change path) := by
  induction path with
  | nil => exact hchange
  | cons key path ih =>
      intro origin es origin' es' hes h
      rw [changeAt] at h
      split at h
      · next hnone =>
        obtain ⟨⟨o, inner⟩, hinner, h⟩ := Option.bind_eq_some_iff.mp h
        obtain ⟨-, rfl⟩ := Prod.mk.inj (Option.some.inj h)
        rw [finishEntries_store]
        have hinner' := ih fresh [] o inner .nil hinner
        exact hes.store hinner'.table
      · next o inner hsome =>
        have hbefore : (Value.table (finishEntries inner)).Distinct :=
          hes.of_find? (by rw [find?_finishEntries, hsome, Option.map_some, Item.finish])
        split at h
        · contradiction
        · obtain ⟨⟨o, inner'⟩, hinner, h⟩ := Option.bind_eq_some_iff.mp h
          obtain ⟨-, rfl⟩ := Prod.mk.inj (Option.some.inj h)
          rw [finishEntries_store]
          exact hes.store (ih _ _ _ _ (.of_table hbefore) hinner).table
      · next elements hsome =>
        have helements : (Item.tables elements).finish.Distinct :=
          hes.of_find? (by rw [find?_finishEntries, hsome, Option.map_some])
        obtain ⟨⟨o, last⟩, hlast, h⟩ := Option.bind_eq_some_iff.mp h
        obtain ⟨-, rfl⟩ := Prod.mk.inj (Option.some.inj h)
        have hbefore : Distinct (finishEntries (elements.getLast?.getD [])) := by
          cases hold : elements.getLast? with
          | none => exact .nil
          | some old =>
              rw [Item.finish, finishElements_eq] at helements
              cases helements with
              | list hitems =>
                  have hmem := List.mem_map_of_mem (f := fun es => Value.table (finishEntries es))
                    (List.mem_of_getLast? hold)
                  exact .of_table (hitems _ hmem)
        rw [finishEntries_store]
        refine hes.store (distinct_tables helements ?_ fun es hes => List.dropLast_subset _ hes)
        intro es hes
        obtain rfl := List.mem_singleton.mp hes
        exact ih _ _ _ _ hbefore hlast
      · contradiction

/-- Adding a pair under a dotted key repeats no key. -/
theorem careful_addPair (key : List String) {v : Value} (hv : v.Distinct) :
    Careful (addPair key v) := careful_changeAt _ (careful_addValue _ _ hv) _

/-! ## Values -/

/-- Whatever is taken has a property. -/
def Yields {α : Type} (p : α → Prop) (scan : Scan α) : Prop :=
  ∀ cs a rest, scan cs = some (a, rest) → p a

theorem distinct_of_float? {negative : Bool} {digits : List Char} {scale : Int} {v : Value}
    (h : float? negative digits scale = some v) : v.Distinct := by
  rw [float?] at h
  split at h
  · contradiction
  · obtain rfl := Option.some.inj h
    exact .float _

theorem distinct_of_integer? {n : Int} {v : Value} (h : integer? n = some v) : v.Distinct := by
  rw [integer?] at h
  split at h
  · obtain rfl := Option.some.inj h
    exact .integer _
  · contradiction

theorem takeBased_yields (base : Nat) : Yields Value.Distinct (takeBased base) := by
  intro cs v rest h
  obtain ⟨⟨digits, cs⟩, -, h⟩ := Option.bind_eq_some_iff.mp h
  obtain ⟨w, hw, h⟩ := Option.bind_eq_some_iff.mp h
  obtain ⟨rfl, -⟩ := Prod.mk.inj (Option.some.inj h)
  exact distinct_of_integer? hw

/-- A number has no keys to repeat. -/
theorem takeUnsigned_yields (negative : Bool) : Yields Value.Distinct (takeUnsigned negative) := by
  intro cs v rest h
  unfold takeUnsigned at h
  split at h
  · obtain ⟨rfl, -⟩ := Prod.mk.inj (Option.some.inj h)
    exact .float _
  · obtain ⟨rfl, -⟩ := Prod.mk.inj (Option.some.inj h)
    exact .float _
  · obtain ⟨⟨whole, cs⟩, -, h⟩ := Option.bind_eq_some_iff.mp h
    dsimp only at h
    split at h
    · obtain ⟨⟨fraction, cs⟩, -, h⟩ := Option.bind_eq_some_iff.mp h
      obtain ⟨⟨exponent, cs⟩, -, h⟩ := Option.bind_eq_some_iff.mp h
      obtain ⟨w, hw, h⟩ := Option.bind_eq_some_iff.mp h
      obtain ⟨rfl, -⟩ := Prod.mk.inj (Option.some.inj h)
      exact distinct_of_float? hw
    · obtain ⟨⟨exponent, cs⟩, -, h⟩ := Option.bind_eq_some_iff.mp h
      cases exponent with
      | none =>
          obtain ⟨w, hw, h⟩ := Option.bind_eq_some_iff.mp h
          obtain ⟨rfl, -⟩ := Prod.mk.inj (Option.some.inj h)
          exact distinct_of_integer? hw
      | some e =>
          obtain ⟨w, hw, h⟩ := Option.bind_eq_some_iff.mp h
          obtain ⟨rfl, -⟩ := Prod.mk.inj (Option.some.inj h)
          exact distinct_of_float? hw

/-- A scalar has no keys to repeat. -/
theorem takeScalar_yields : Yields Value.Distinct takeScalar := by
  intro cs v rest h
  unfold takeScalar at h
  split at h
  · obtain ⟨rfl, -⟩ := Prod.mk.inj (Option.some.inj h)
    exact .flag _
  · obtain ⟨rfl, -⟩ := Prod.mk.inj (Option.some.inj h)
    exact .flag _
  · obtain ⟨r, -, hr⟩ := Option.map_eq_some_iff.mp h
    obtain ⟨rfl, -⟩ := Prod.mk.inj hr
    exact .text _
  · obtain ⟨r, -, hr⟩ := Option.map_eq_some_iff.mp h
    obtain ⟨rfl, -⟩ := Prod.mk.inj hr
    exact .text _
  · unfold takeNumber at h
    split at h
    · exact takeBased_yields _ _ _ _ h
    · exact takeBased_yields _ _ _ _ h
    · exact takeBased_yields _ _ _ _ h
    · exact takeUnsigned_yields _ _ _ _ h

section

variable {element : Scan Value}

/-- A list whose items repeat no key repeats none. -/
theorem takeItems_yields (h : Yields Value.Distinct element) (fuel : Nat) {done : List Value}
    (hdone : ∀ v ∈ done, v.Distinct) :
    Yields (fun items => ∀ v ∈ items, v.Distinct) (takeItems element fuel done) := by
  induction fuel generalizing done with
  | zero =>
      intro cs items rest hitems
      contradiction
  | succ fuel ih =>
      intro cs items rest hitems
      obtain ⟨cs', -, hitems⟩ := Option.bind_eq_some_iff.mp hitems
      split at hitems
      · obtain ⟨rfl, -⟩ := Prod.mk.inj (Option.some.inj hitems)
        exact fun v hv => hdone v (List.mem_reverse.mp hv)
      · obtain ⟨⟨v, cs₂⟩, hv, hitems⟩ := Option.bind_eq_some_iff.mp hitems
        have hmore : ∀ w ∈ v :: done, w.Distinct :=
          List.forall_mem_cons.mpr ⟨h _ _ _ hv, hdone⟩
        obtain ⟨cs₃, -, hitems⟩ := Option.bind_eq_some_iff.mp hitems
        split at hitems
        · exact ih hmore _ _ _ hitems
        · obtain ⟨rfl, -⟩ := Prod.mk.inj (Option.some.inj hitems)
          exact fun w hw => hmore w (List.mem_reverse.mp hw)
        · contradiction

/-- A pair whose value repeats no key repeats none. -/
theorem takePair_yields (h : Yields Value.Distinct element) :
    Yields (fun pair => pair.2.Distinct) (takePair element) := by
  intro cs pair rest hpair
  obtain ⟨⟨key, cs'⟩, -, hpair⟩ := Option.bind_eq_some_iff.mp hpair
  dsimp only at hpair
  split at hpair
  · obtain ⟨⟨v, cs₂⟩, hv, hpair⟩ := Option.bind_eq_some_iff.mp hpair
    obtain ⟨rfl, -⟩ := Prod.mk.inj (Option.some.inj hpair)
    exact h _ _ _ hv
  · contradiction

/-- Pairs in a row go through the careful adding. -/
theorem takePairs_yields (h : Yields Value.Distinct element) (fuel : Nat) {es : Entries}
    (hes : Distinct (finishEntries es)) :
    Yields (fun es => Distinct (finishEntries es)) (takePairs element fuel es) := by
  induction fuel generalizing es with
  | zero =>
      intro cs es' rest hpairs
      contradiction
  | succ fuel ih =>
      intro cs es' rest hpairs
      obtain ⟨⟨⟨key, v⟩, cs'⟩, hpair, hpairs⟩ := Option.bind_eq_some_iff.mp hpairs
      obtain ⟨⟨o, more⟩, hmore, hpairs⟩ := Option.bind_eq_some_iff.mp hpairs
      have hkept : Distinct (finishEntries more) :=
        careful_addPair key (takePair_yields h _ _ _ hpair) _ _ _ _ hes hmore
      dsimp only at hpairs
      split at hpairs
      · exact ih hkept _ _ _ hpairs
      · obtain ⟨rfl, -⟩ := Prod.mk.inj (Option.some.inj hpairs)
        exact hkept
      · contradiction

/-- A table in braces repeats no key. -/
theorem takeBraces_yields (h : Yields Value.Distinct element) :
    Yields (fun es => Distinct (finishEntries es)) (takeBraces element) := by
  intro cs es rest hbraces
  rw [takeBraces] at hbraces
  split at hbraces
  · obtain ⟨rfl, -⟩ := Prod.mk.inj (Option.some.inj hbraces)
    exact .nil
  · have hnil : Distinct (finishEntries []) := .nil
    exact takePairs_yields h _ hnil _ _ _ hbraces

end

/-- No value that can be read repeats a key. -/
theorem takeValue_yields (room : Nat) : Yields Value.Distinct (takeValue room) := by
  induction room with
  | zero => exact takeScalar_yields
  | succ room ih =>
      intro cs v rest h
      unfold takeValue at h
      split at h
      · obtain ⟨r, hr, heq⟩ := Option.map_eq_some_iff.mp h
        obtain ⟨rfl, -⟩ := Prod.mk.inj heq
        exact .list (takeItems_yields ih _ (by simp) _ _ _ hr)
      · obtain ⟨r, hr, heq⟩ := Option.map_eq_some_iff.mp h
        obtain ⟨rfl, -⟩ := Prod.mk.inj heq
        exact (takeBraces_yields ih _ _ _ hr).table
      · exact takeScalar_yields _ _ _ h

/-! ## Lines -/

/-- The value that a line may have has no key twice. -/
def Line.Distinct : Line → Prop
  | .pair _ v => v.Distinct
  | .empty | .header _ | .element _ => True

/-- The content of a line repeats no key. -/
theorem takeContent_yields : Yields Line.Distinct takeContent := by
  intro cs line rest h
  unfold takeContent at h
  split at h
  · obtain ⟨⟨key, cs'⟩, -, h⟩ := Option.bind_eq_some_iff.mp h
    split at h
    · obtain ⟨rfl, -⟩ := Prod.mk.inj (Option.some.inj h)
      trivial
    · contradiction
  · obtain ⟨⟨key, cs'⟩, -, h⟩ := Option.bind_eq_some_iff.mp h
    split at h
    · obtain ⟨rfl, -⟩ := Prod.mk.inj (Option.some.inj h)
      trivial
    · contradiction
  · obtain ⟨⟨⟨key, v⟩, cs'⟩, hpair, h⟩ := Option.bind_eq_some_iff.mp h
    obtain ⟨rfl, -⟩ := Prod.mk.inj (Option.some.inj h)
    exact takePair_yields (takeValue_yields _) _ _ _ hpair

/-- No line that can be read repeats a key. -/
theorem takeFileLine_yields : Yields Line.Distinct takeFileLine := by
  intro cs line rest h
  rw [takeFileLine] at h
  split at h
  · obtain ⟨rfl, -⟩ := Prod.mk.inj (Option.some.inj h)
    trivial
  · obtain ⟨⟨line', cs'⟩, hline, h⟩ := Option.bind_eq_some_iff.mp h
    obtain ⟨rest', -, h⟩ := Option.bind_eq_some_iff.mp h
    obtain ⟨rfl, -⟩ := Prod.mk.inj (Option.some.inj h)
    exact takeContent_yields _ _ _ hline

/-- No line of a file repeats a key. -/
theorem distinct_of_takeLines {fuel : Nat} {cs : List Char} {lines : List Line}
    (h : takeLines fuel cs = some lines) : ∀ line ∈ lines, line.Distinct := by
  induction fuel generalizing cs lines with
  | zero =>
      cases cs with
      | nil =>
          obtain rfl := Option.some.inj h
          simp
      | cons c cs => contradiction
  | succ fuel ih =>
      cases cs with
      | nil =>
          obtain rfl := Option.some.inj h
          simp
      | cons c cs =>
          obtain ⟨⟨line, rest⟩, hline, h⟩ := Option.bind_eq_some_iff.mp h
          obtain ⟨more, hmore, h⟩ := Option.bind_eq_some_iff.mp h
          obtain rfl := Option.some.inj h
          exact List.forall_mem_cons.mpr ⟨takeFileLine_yields _ _ _ hline, ih hmore⟩

/-- No line gives the table of a file a key twice. -/
theorem Reading.distinct_step {r r' : Reading} {line : Line} (hline : line.Distinct)
    (hroot : Distinct (finishEntries r.root)) (h : r.step line = some r') :
    Distinct (finishEntries r'.root) := by
  have hchange {current : List String} {c : Change} (hc : Careful c)
      (h : r.change current c = some r') : Distinct (finishEntries r'.root) := by
    obtain ⟨⟨o, root⟩, hroot', rfl⟩ := Option.map_eq_some_iff.mp h
    exact hc _ _ _ _ hroot hroot'
  cases line with
  | empty =>
      obtain rfl := Option.some.inj h
      exact hroot
  | pair key v => exact hchange (careful_changeAt _ (careful_addPair key hline) _) h
  | header key => exact hchange (careful_changeAt _ (careful_addTable _) _) h
  | element key => exact hchange (careful_changeAt _ (careful_addElement _) _) h

/-- The entries made up by lines that repeat no key repeat none. -/
theorem distinct_of_ofLines {lines : List Line} {es : List (String × Value)}
    (hlines : ∀ line ∈ lines, line.Distinct) (h : ofLines lines = some es) : Distinct es := by
  obtain ⟨r, hr, rfl⟩ := Option.map_eq_some_iff.mp h
  have hstart : Distinct (finishEntries ({} : Reading).root) := .nil
  generalize ({} : Reading) = start at hr hstart
  clear h
  induction lines generalizing start with
  | nil =>
      obtain rfl := Option.some.inj hr
      exact hstart
  | cons line lines ih =>
      rw [List.foldlM_cons] at hr
      obtain ⟨next, hnext, hr⟩ := Option.bind_eq_some_iff.mp hr
      obtain ⟨hline, hlines⟩ := List.forall_mem_cons.mp hlines
      exact ih hlines next hr (Reading.distinct_step hline hstart hnext)

/-- **What is read from a settings file never has a key twice.** -/
theorem distinct_of_read {text : String} {es : List (String × Value)} (h : read text = some es) :
    Distinct es := by
  obtain ⟨lines, hlines, h⟩ := Option.bind_eq_some_iff.mp h
  exact distinct_of_ofLines (distinct_of_takeLines hlines) h

end SchemaCatalog.Toml
