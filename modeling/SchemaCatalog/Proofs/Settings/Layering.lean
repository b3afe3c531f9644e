import SchemaCatalog.Proofs.Text.Lower
import SchemaCatalog.Proofs.Toml.Entries
import SchemaCatalog.Settings.Decoding

/-!
# SchemaCatalog.Proofs.Settings.Layering

Settings as a layer, and what becomes of it: laid over nothing or over itself,
any number of times, it stays the same layer, except that the namespaces of the
extra names are put into lower case (`lay_layer`, `Lowered.storeAll`).
Namespaces that differ in case only become one, with the names of one of them.
-/

namespace SchemaCatalog.Settings

open Toml (find? store find?_nil find?_cons find?_store find?_eq_none find?_eq_some_iff
  isSome_find?_iff nodup_keys_store)

section

variable {α : Type} {key q : String} {a : α} {es t : List (String × α)}

/-! ## Stored entries -/

/-- The entries of a table have what the table has. -/
theorem find?_entries (table : Table String α) (q : String) :
    find? table.entries q = table.get? q := by
  refine Option.ext fun a => ?_
  rw [find?_eq_some_iff table.nodup_keys, Table.mem_entries_iff]

/-- Stores entries over others, their keys in lower case. -/
def storeAll (es t : List (String × α)) : List (String × α) :=
  es.foldl (fun t e => store (Text.lower e.1) e.2 t) t

/-- What entries have for a key in lower case: the value of the last that has
it. -/
def lastOf (q : String) : List (String × α) → Option α
  | [] => none
  | (key, a) :: es => (lastOf q es).or (if Text.lower key = q then some a else none)

/-- Of the entries that are stored the last one of a key is found. -/
theorem find?_storeAll : find? (storeAll es t) q = (lastOf q es).or (find? t q) := by
  induction es generalizing t with
  | nil => simp [storeAll, lastOf]
  | cons e es ih =>
      obtain ⟨key, a⟩ := e
      have hstep : find? (storeAll ((key, a) :: es) t) q =
          (lastOf q es).or (find? (store (Text.lower key) a t) q) := ih
      rw [hstep, find?_store, lastOf, Option.or_assoc]
      by_cases hq : Text.lower key = q
      · simp [hq]
      · simp [hq, Ne.symm hq]

/-- Storing entries repeats no key. -/
theorem nodup_keys_storeAll (h : (t.map (·.1)).Nodup) : ((storeAll es t).map (·.1)).Nodup := by
  induction es generalizing t with
  | nil => exact h
  | cons e es ih => exact ih (nodup_keys_store h)

/-- A value that entries have for a key belongs to a key with this lower case. -/
theorem exists_of_lastOf (h : lastOf q es = some a) :
    ∃ key, Text.lower key = q ∧ (key, a) ∈ es := by
  induction es with
  | nil => simp [lastOf] at h
  | cons e es ih =>
      obtain ⟨key, b⟩ := e
      rw [lastOf, Option.or_eq_some_iff] at h
      rcases h with h | ⟨-, h⟩
      · obtain ⟨key', hkey', hmem⟩ := ih h
        exact ⟨key', hkey', List.mem_cons_of_mem _ hmem⟩
      · split at h
        · next hkey =>
            cases h
            exact ⟨key, hkey, List.mem_cons_self⟩
        · contradiction

/-- For the lower case of each of their keys, entries have a value. -/
theorem isSome_lastOf (h : (key, a) ∈ es) : (lastOf (Text.lower key) es).isSome := by
  induction es with
  | nil => simp at h
  | cons e es ih =>
      obtain ⟨key', b⟩ := e
      rw [lastOf, Option.isSome_or]
      rcases List.mem_cons.mp h with h | h
      · cases h
        simp
      · simp [ih h]

/-! ## Entries in lower case -/

/-- `t` has the entries `es` with their keys in lower case. -/
structure Lowered (es t : List (String × α)) : Prop where
  nodup : (t.map (·.1)).Nodup
  find : ∀ q, find? t q = lastOf q es

namespace Lowered

/-- Entries that are stored into an empty table are lowered. -/
theorem of_nil : Lowered es (storeAll es []) where
  nodup := nodup_keys_storeAll List.nodup_nil
  find q := by
    rw [find?_storeAll]
    simp [find?]

/-- The same entries may be stored once more. -/
theorem storeAll (h : Lowered es t) : Lowered es (storeAll es t) where
  nodup := nodup_keys_storeAll h.nodup
  find q := by rw [find?_storeAll, h.find, Option.or_self]

/-- The keys are their own lower case. -/
theorem lower_key (h : Lowered es t) (hkey : key ∈ t.map (·.1)) : Text.lower key = key := by
  have hsome := isSome_find?_iff.mpr hkey
  rw [h.find, Option.isSome_iff_exists] at hsome
  obtain ⟨a, ha⟩ := hsome
  obtain ⟨key', hkey', -⟩ := exists_of_lastOf ha
  rw [← hkey', Text.lower_lower]

/-- Entries with different keys in lower case have what is found in them. -/
theorem lastOf_eq (hnodup : (t.map (·.1)).Nodup)
    (hlower : ∀ key ∈ t.map (·.1), Text.lower key = key) (q : String) :
    lastOf q t = find? t q := by
  induction t with
  | nil => rfl
  | cons e t ih =>
      obtain ⟨key, a⟩ := e
      rw [List.map_cons, List.nodup_cons] at hnodup
      have hkey : Text.lower key = key := hlower key (by simp)
      rw [lastOf, find?_cons, hkey, ih hnodup.2 fun k hk => hlower k (List.mem_cons_of_mem _ hk)]
      by_cases hq : q = key
      · simp [hq, find?_eq_none hnodup.1]
      · simp [hq, Ne.symm hq]

/-- Entries in lower case may be stored in their turn. -/
theorem storeAll_nil (h : Lowered es t) : Lowered es (Settings.storeAll t []) where
  nodup := nodup_keys_storeAll List.nodup_nil
  find q := by
    rw [find?_storeAll, lastOf_eq h.nodup (fun _ => h.lower_key), find?_nil, Option.or_none,
      h.find]

end Lowered

/-- Inserting distinct entries answers for their keys and leaves the others. -/
theorem get?_foldl_insert_entries (h : (t.map (·.1)).Nodup) (table : Table String α) :
    (t.foldl (fun t e => t.insert e.1 e.2) table).get? q = (find? t q).or (table.get? q) := by
  induction t generalizing table with
  | nil => simp [find?_nil]
  | cons e t ih =>
      obtain ⟨key, a⟩ := e
      rw [List.map_cons, List.nodup_cons] at h
      rw [List.foldl_cons, ih h.2, Table.get?_insert, find?_cons]
      by_cases hq : q = key
      · simp [hq, find?_eq_none h.1]
      · simp [hq]

/-- In a table made of entries with different keys, each key has its value. -/
theorem get?_ofList (h : (t.map (·.1)).Nodup) : (Table.ofList t).get? q = find? t q := by
  rw [Table.ofList, get?_foldl_insert_entries h, Table.get?_empty, Option.or_none]

end

/-! ## Layers -/

/-- Names by namespace as a table of a layer. -/
def spaces (t : List (String × List String)) : List (String × Raw) :=
  t.map fun e => (e.1, .list (e.2.map .text))

/-- The section on built-in names in a layer, with some names by namespace as the
extra ones. -/
def BuiltinSection.raw (b : BuiltinSection) (extra : List (String × List String)) : Raw :=
  .table [("include_xsd", .flag b.includeXsd), ("extra", .table (spaces extra))]

def MergeSection.raw (m : MergeSection) : Raw :=
  .table [("dedup_external_references", .flag m.dedup)]

def ResolveSection.raw (r : ResolveSection) : Raw := .table [("strict", .flag r.strict)]

def LoaderSection.raw (l : LoaderSection) : Raw :=
  .table [("extension", .text l.extension), ("skip_prefixes", .list (l.skip.map .text))]

def OutputSection.raw (o : OutputSection) : Raw := .table [("format", .text o.format.name)]

/-- Settings as a layer, with some names by namespace as the extra ones. -/
def layer (s : Settings) (extra : List (String × List String)) : List (String × Raw) :=
  [("builtins", s.builtins.raw extra), ("merge", s.merge.raw), ("resolve", s.resolve.raw),
    ("loader", s.loader.raw), ("output", s.output.raw)]

namespace Raw

/-- Storing names under a namespace commutes with writing them out. -/
theorem store_spaces (key : String) (names : List String) (t : List (String × List String)) :
    store key (.list (names.map .text)) (spaces t) = spaces (store key names t) := by
  induction t with
  | nil => rfl
  | cons e t ih =>
      rw [store]
      split
      · next h => simp [spaces, store, h]
      · next h => simpa [spaces, store, h] using ih

/-- Merging namespaces stores each with its names. -/
theorem mergeAll_spaces (es t : List (String × List String)) :
    mergeAll (spaces es) (.table (spaces t)) = .table (spaces (storeAll es t)) := by
  induction es generalizing t with
  | nil => rfl
  | cons e es ih =>
      have hmerge : merge e.1 (.list (e.2.map .text)) (.table (spaces t)) =
          .table (spaces (store (Text.lower e.1) e.2 t)) := by
        rw [← store_spaces]
        rfl
      have hstep : mergeAll (spaces (e :: es)) (.table (spaces t)) =
          mergeAll (spaces es) (merge e.1 (.list (e.2.map .text)) (.table (spaces t))) := rfl
      rw [hstep, hmerge, ih]
      rfl

def knownKeys : List String :=
  ["builtins", "include_xsd", "extra", "merge", "dedup_external_references", "resolve", "strict",
    "loader", "extension", "skip_prefixes", "output", "format"]

theorem lower_known (key : String) (h : key ∈ knownKeys) : Text.lower key = key := by
  have hchars : ∀ key ∈ knownKeys, ∀ c ∈ key.toList,
      c.toNat < 0x80 ∧ (c.toNat < 0x41 ∨ 0x5A < c.toNat) := by
    simp [knownKeys]
  exact Text.lower_of_ascii (hchars key h)

theorem path?_known : ∀ key ∈ knownKeys, path? key = some [.child key] := by
  simp only [knownKeys, List.forall_mem_cons, List.not_mem_nil, false_implies, implies_true]
  exact ⟨rfl, rfl, rfl, rfl, rfl, rfl, rfl, rfl, rfl, rfl, rfl, rfl, trivial⟩

section

variable {key : String} (h : key ∈ knownKeys)

include h

/-- A known key is merged where it stands. -/
theorem setEntry_known (v root : Raw) : setEntry root (key, v) = merge key v root := by
  simp only [setEntry, path?_known key h, setAt, List.getLast?_singleton,
    List.dropLast_singleton, changeAt]

/-- Merging a table merges its entries into the one that is there. -/
theorem merge_table (es : List (String × Raw)) (target : Raw) :
    merge key (.table es) target =
      .table (store key (mergeAll es ((find? target.entries key).getD (.table [])))
        target.entries) := by
  simp only [merge, lower_known key h]

/-- A value that is not a table takes the place of what was there. -/
theorem merge_value {v : Raw} (hv : ∀ es, v ≠ .table es) (target : Raw) :
    merge key v target = .table (store key v target.entries) := by
  cases v with
  | table es => exact absurd rfl (hv es)
  | _ => simp only [merge, lower_known key h]

end

/-- Settings as the first layer that has anything in it. -/
theorem lay_layer_nil (s : Settings) (es : List (String × List String)) :
    lay (.table []) (s.layer es) = .table (s.layer (storeAll es [])) := by
  have hspaces := mergeAll_spaces es []
  simp (disch := first | decide | simp) only [lay, Settings.layer, BuiltinSection.raw,
    MergeSection.raw, ResolveSection.raw, LoaderSection.raw, OutputSection.raw, List.foldl_cons,
    List.foldl_nil, setEntry_known, merge_table, merge_value, mergeAll, Raw.entries]
  simpa [find?_nil, find?_cons, store, spaces] using hspaces

/-- Settings laid over themselves. -/
theorem lay_layer (s : Settings) (es t : List (String × List String)) :
    lay (.table (s.layer t)) (s.layer es) = .table (s.layer (storeAll es t)) := by
  have hspaces := mergeAll_spaces es t
  simp (disch := first | decide | simp) only [lay, Settings.layer, BuiltinSection.raw,
    MergeSection.raw, ResolveSection.raw, LoaderSection.raw, OutputSection.raw, List.foldl_cons,
    List.foldl_nil, setEntry_known, merge_table, merge_value, mergeAll, Raw.entries]
  simpa [find?_cons, store] using hspaces

section

variable {s : Settings} {es t : List (String × List String)} {ls : List (List (String × Raw))}

/-- Where settings have been laid, they stay. -/
theorem foldl_lay_layer (h : ∀ l ∈ ls, l = [] ∨ l = s.layer es) (ht : Lowered es t) :
    ∃ t', Lowered es t' ∧ ls.foldl lay (.table (s.layer t)) = .table (s.layer t') := by
  induction ls generalizing t with
  | nil => exact ⟨t, ht, rfl⟩
  | cons l ls ih =>
      have hmore : ∀ l ∈ ls, l = [] ∨ l = s.layer es := fun l' hl => h l' (List.mem_cons_of_mem _ hl)
      rw [List.foldl_cons]
      rcases h l List.mem_cons_self with rfl | rfl
      · exact ih hmore ht
      · rw [lay_layer]
        exact ih hmore ht.storeAll

/-- **Settings that come in one or more layers, and in all of them alike, come out
of them with their namespaces in lower case.** -/
theorem layers_layer (h : ∀ l ∈ ls, l = [] ∨ l = s.layer es) (hmem : s.layer es ∈ ls) :
    ∃ t, Lowered es t ∧ layers ls = .table (s.layer t) := by
  have hfold : ∃ t, Lowered es t ∧ ls.foldl lay (.table []) = .table (s.layer t) := by
    induction ls with
    | nil => contradiction
    | cons l ls ih =>
        have hmore : ∀ l ∈ ls, l = [] ∨ l = s.layer es := fun l' hl =>
          h l' (List.mem_cons_of_mem _ hl)
        rw [List.foldl_cons]
        rcases h l List.mem_cons_self with rfl | rfl
        · exact ih hmore ((List.mem_cons.mp hmem).resolve_left (by simp [layer]))
        · rw [lay_layer_nil]
          exact foldl_lay_layer hmore .of_nil
  obtain ⟨t, ht, heq⟩ := hfold
  refine ⟨storeAll t [], ht.storeAll_nil, ?_⟩
  rw [layers, heq, Raw.entries, lay_layer_nil]

end

/-! ## Reading -/

/-- Texts are read as texts. -/
theorem mapM_text? (names : List String) : (names.map Raw.text).mapM text? = some names := by
  induction names with
  | nil => rfl
  | cons name names ih => simp [text?, ih]

/-- Written namespaces are read back. -/
theorem lists?_spaces (t : List (String × List String)) :
    lists? (.table (spaces t)) = some (.ofList t) := by
  have hread : (spaces t).mapM (fun (e : String × Raw) => (texts? e.2).map fun l => (e.1, l)) =
      some t := by
    induction t with
    | nil => rfl
    | cons e t ih =>
        have hnames : texts? (.list (e.2.map .text)) = some e.2 := mapM_text? e.2
        rw [spaces] at ih ⊢
        rw [List.map_cons, List.mapM_cons, ih]
        simp [hnames]
  rw [lists?, hread]
  rfl

end Raw

/-- The name of a format stands for the format. -/
theorem named?_format (f : Format) : Raw.named? Format.byName (.text f.name) = some f := by
  have hlower : Text.lower f.name = f.name := by
    cases f <;> exact Text.lower_of_ascii (by simp [Format.name])
  rw [Raw.named?, hlower]
  cases f <;> rfl

section

open Raw (readSection readEntries Slot)

/-- A written section of built-in names is read back. -/
theorem BuiltinSection.ofRaw?_raw (b : BuiltinSection) (t : List (String × List String)) :
    BuiltinSection.ofRaw? (b.raw t) = some { b with extra := .ofList t } := by
  simp [ofRaw?, raw, readSection, readEntries, Slot.of, Raw.flag?, Raw.lists?_spaces]

theorem MergeSection.ofRaw?_raw (m : MergeSection) : MergeSection.ofRaw? m.raw = some m := by
  simp [ofRaw?, raw, readSection, readEntries, Slot.of, Raw.flag?]

theorem ResolveSection.ofRaw?_raw (r : ResolveSection) : ResolveSection.ofRaw? r.raw = some r := by
  simp [ofRaw?, raw, readSection, readEntries, Slot.of, Raw.flag?]

theorem LoaderSection.ofRaw?_raw (l : LoaderSection) : LoaderSection.ofRaw? l.raw = some l := by
  have hskip : Raw.texts? (.list (l.skip.map .text)) = some l.skip := Raw.mapM_text? l.skip
  simp [ofRaw?, raw, readSection, readEntries, Slot.of, Raw.text?, hskip]

theorem OutputSection.ofRaw?_raw (o : OutputSection) : OutputSection.ofRaw? o.raw = some o := by
  simp [ofRaw?, raw, readSection, readEntries, Slot.of, named?_format]

/-- **Settings are read from their layer.** -/
theorem ofRaw?_layer (s : Settings) (t : List (String × List String)) :
    ofRaw? (.table (s.layer t)) =
      some { s with builtins := { s.builtins with extra := .ofList t } } := by
  simp [ofRaw?, layer, readSection, readEntries, Slot.of, BuiltinSection.ofRaw?_raw,
    MergeSection.ofRaw?_raw, ResolveSection.ofRaw?_raw, LoaderSection.ofRaw?_raw,
    OutputSection.ofRaw?_raw]

end

end SchemaCatalog.Settings
