import Mathlib.Data.List.Nodup
import SchemaCatalog.Toml.Value

/-!
# SchemaCatalog.Proofs.Toml.Entries

Entries under keys: what is found in them, and which keys they have, once
another entry has been stored.
-/

namespace SchemaCatalog.Toml

variable {α : Type} {key q : String} {a : α} {t : List (String × α)}

theorem find?_nil : find? ([] : List (String × α)) q = none := rfl

theorem find?_cons : find? ((key, a) :: t) q = if q = key then some a else find? t q := by
  by_cases h : q = key
  · simp [find?, h]
  · simp [find?, List.lookup_cons, beq_eq_false_iff_ne.mpr h, h]

/-- A stored entry is found under its key, and the others as before. -/
theorem find?_store : find? (store key a t) q = if q = key then some a else find? t q := by
  induction t with
  | nil => rw [store, find?_cons]
  | cons e t ih =>
      obtain ⟨k, b⟩ := e
      rw [store]
      split
      · next hk =>
          rw [find?_cons, find?_cons, hk]
          split <;> rfl
      · next hk =>
          rw [find?_cons, find?_cons, ih]
          by_cases hq : q = k
          · simp [hq, hk]
          · simp [hq]

/-- An entry is found for the listed keys. -/
theorem isSome_find?_iff : (find? t key).isSome ↔ key ∈ t.map (·.1) := by
  induction t with
  | nil => simp [find?_nil]
  | cons e t ih =>
      rw [find?_cons, List.map_cons, List.mem_cons, ← ih]
      split
      · next h => simp [h]
      · next h => simp [h]

theorem find?_eq_none (h : key ∉ t.map (·.1)) : find? t key = none := by
  rw [← Option.not_isSome_iff_eq_none, isSome_find?_iff]
  exact h

/-- If no key is repeated, then what is found is what is listed. -/
theorem find?_eq_some_iff (h : (t.map (·.1)).Nodup) : find? t q = some a ↔ (q, a) ∈ t := by
  induction t with
  | nil => simp [find?_nil]
  | cons e t ih =>
      obtain ⟨key, b⟩ := e
      rw [List.map_cons, List.nodup_cons] at h
      rw [find?_cons, List.mem_cons]
      by_cases hq : q = key
      · have hnot : (key, a) ∉ t := fun hmem => h.1 (List.mem_map.mpr ⟨_, hmem, rfl⟩)
        simp [hq, hnot, eq_comm]
      · simp [hq, ih h.2]

/-- Storing lists the key and those that were listed. -/
theorem mem_keys_store {k : String} :
    k ∈ (store key a t).map (·.1) ↔ k = key ∨ k ∈ t.map (·.1) := by
  induction t with
  | nil => simp [store]
  | cons e t ih =>
      rw [store]
      split
      · next h => simp [← h]
      · rw [List.map_cons, List.mem_cons, ih, List.map_cons, List.mem_cons, or_left_comm]

/-- Storing repeats no key. -/
theorem nodup_keys_store (h : (t.map (·.1)).Nodup) : ((store key a t).map (·.1)).Nodup := by
  induction t with
  | nil => simp [store]
  | cons e t ih =>
      rw [List.map_cons, List.nodup_cons] at h
      rw [store]
      split
      · next heq => exact List.nodup_cons.mpr ⟨heq ▸ h.1, h.2⟩
      · next hne =>
          refine List.nodup_cons.mpr ⟨?_, ih h.2⟩
          rw [mem_keys_store, not_or]
          exact ⟨hne, h.1⟩

/-- Storing lists the new entry and some of the old ones. -/
theorem mem_of_mem_store {e : String × α} (h : e ∈ store key a t) : e = (key, a) ∨ e ∈ t := by
  induction t with
  | nil => exact .inl (List.mem_singleton.mp h)
  | cons e' t ih =>
      rw [store] at h
      split at h
      · exact (List.mem_cons.mp h).imp id (List.mem_cons_of_mem _)
      · rcases List.mem_cons.mp h with rfl | h
        · exact .inr List.mem_cons_self
        · exact (ih h).imp id (List.mem_cons_of_mem _)

/-- What is found is listed. -/
theorem mem_of_find? (h : find? t key = some a) : (key, a) ∈ t := by
  induction t with
  | nil => contradiction
  | cons e t ih =>
      rw [find?_cons] at h
      split at h
      · next hkey =>
        obtain rfl := Option.some.inj h
        exact hkey ▸ List.mem_cons_self
      · exact List.mem_cons_of_mem _ (ih h)

end SchemaCatalog.Toml
