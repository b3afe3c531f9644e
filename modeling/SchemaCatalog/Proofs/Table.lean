import SchemaCatalog.Table

/-!
# SchemaCatalog.Proofs.Table

Tables whose entries are mapped.  A map of the values leaves the keys and their
order alone (`Table.mapValues`).  A map of the keys has to keep their order; what
it does to the entries of a table is then the same before and after an entry is
put in (`place_map`) or looked up (`find_map`).
-/

namespace SchemaCatalog

open Std

variable {κ κ' α β : Type} [Ord κ] [Ord κ']

namespace Table

/-! ## entries under a map that keeps the order of keys -/

section

variable {g : κ → κ'} (hg : ∀ p q, compare (g p) (g q) = compare p q) (f : α → β)

include hg

/-- Renaming the keys one to one finds what was found before. -/
theorem find_map (k : κ) (entries : List (κ × α)) :
    find (g k) (entries.map (Prod.map g f)) = (find k entries).map f := by
  induction entries with
  | nil => rfl
  | cons e entries ih =>
      rw [List.map_cons, find, find, Prod.map_fst, hg, ih]
      cases compare k e.1 with
      | lt => rfl
      | eq => rfl
      | gt => rfl

/-- Renaming the keys one to one places an entry where it was placed before. -/
theorem place_map (k : κ) (v : α) (entries : List (κ × α)) :
    place (g k) (f v) (entries.map (Prod.map g f)) = (place k v entries).map (Prod.map g f) := by
  induction entries with
  | nil => rfl
  | cons e entries ih =>
      rw [List.map_cons, place, place, Prod.map_fst, hg, ih]
      cases compare k e.1 with
      | lt => rfl
      | eq => rfl
      | gt => rfl

end

/-! ## tables with mapped values -/

/-- The table with `f` applied to every value. -/
def mapValues (f : α → β) (t : Table κ α) : Table κ β where
  entries := t.entries.map (Prod.map id f)
  increasing := List.pairwise_map.mpr t.increasing

section

variable (f : α → β) (t : Table κ α)

theorem get?_mapValues (k : κ) : (t.mapValues f).get? k = (t.get? k).map f :=
  find_map (fun _ _ => rfl) f k t.entries

theorem contains_mapValues (k : κ) : (t.mapValues f).contains k = t.contains k := by
  rw [contains, contains, get?_mapValues, Option.isSome_map]

theorem keys_mapValues : (t.mapValues f).keys = t.keys := by
  rw [keys, keys, mapValues, List.map_map]
  rfl

theorem values_mapValues : (t.mapValues f).values = t.values.map f := by
  rw [values, values, mapValues, List.map_map, List.map_map]
  rfl

/-- Inserting and changing the values can be exchanged. -/
theorem insert_mapValues [TransOrd κ] [LawfulEqOrd κ] (k : κ) (v : α) :
    (t.mapValues f).insert k (f v) = (t.insert k v).mapValues f :=
  ext (place_map (fun _ _ => rfl) f k v t.entries)

/-- Functions that agree on the values of a table map it alike. -/
theorem mapValues_congr [LawfulEqOrd κ] {g : α → β} (h : ∀ k v, t.get? k = some v → f v = g v) :
    t.mapValues f = t.mapValues g := by
  refine ext (List.map_congr_left fun e he => ?_)
  rw [Prod.map, Prod.map, h e.1 e.2 ((mem_entries_iff t).mp he)]

end

end Table

end SchemaCatalog
