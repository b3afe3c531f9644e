/-!
# SchemaCatalog.Table

Finite maps kept as lists of entries in strictly increasing key order. The order is part of the
type, so a table has one representation: two tables with the same look-ups are equal (`ext_get?`),
and listing the entries lists them by key.

Main statements: `get?_insert` says what an insertion does to every look-up, `mem_entries_iff`
ties look-ups to the listed entries.
-/

namespace SchemaCatalog

open Std

variable {κ α : Type} [Ord κ]

/-- Entries in strictly increasing key order. -/
def Increasing (entries : List (κ × α)) : Prop :=
  entries.Pairwise fun a b => compare a.1 b.1 = .lt

/-- A finite map, listed by increasing key. -/
structure Table (κ α : Type) [Ord κ] where
  entries : List (κ × α)
  increasing : Increasing entries

namespace Table

/-! ## Entry lists -/

def find (k : κ) : List (κ × α) → Option α
  | [] => none
  | (k', v) :: rest => match compare k k' with
    | .eq => some v
    | _ => find k rest

/-- Puts an entry at its place, over an earlier entry of the same key. -/
def place (k : κ) (v : α) : List (κ × α) → List (κ × α)
  | [] => [(k, v)]
  | (k', v') :: rest => match compare k k' with
    | .lt => (k, v) :: (k', v') :: rest
    | .eq => (k, v) :: rest
    | .gt => (k', v') :: place k v rest

/-- Placing an entry brings in no other. -/
theorem mem_place {k : κ} {v : α} {e : κ × α} {l : List (κ × α)} (h : e ∈ place k v l) :
    e = (k, v) ∨ e ∈ l := by
  induction l with
  | nil => simp_all [place]
  | cons hd tl ih =>
    obtain ⟨k', v'⟩ := hd
    unfold place at h
    split at h
    · simpa using h
    · rcases List.mem_cons.1 h with h | h
      · exact .inl h
      · exact .inr (List.mem_cons_of_mem _ h)
    · rcases List.mem_cons.1 h with h | h
      · exact .inr (h ▸ List.mem_cons_self)
      · exact (ih h).imp_right (List.mem_cons_of_mem _)

/-- Placing an entry keeps the keys in order. -/
theorem increasing_place [TransOrd κ] [LawfulEqOrd κ] (k : κ) (v : α) {l : List (κ × α)}
    (h : Increasing l) : Increasing (place k v l) := by
  induction l with
  | nil => simp [place, Increasing]
  | cons hd tl ih =>
    obtain ⟨k', v'⟩ := hd
    obtain ⟨hhd, htl⟩ := List.pairwise_cons.1 h
    unfold place
    split
    · rename_i hk
      refine List.pairwise_cons.2 ⟨fun e he => ?_, h⟩
      rcases List.mem_cons.1 he with rfl | he
      · exact hk
      · exact TransCmp.lt_trans hk (hhd e he)
    · rename_i hk
      obtain rfl := LawfulEqCmp.eq_of_compare hk
      exact List.pairwise_cons.2 ⟨hhd, htl⟩
    · rename_i hk
      refine List.pairwise_cons.2 ⟨fun e he => ?_, ih htl⟩
      rcases mem_place he with rfl | he
      · exact OrientedCmp.lt_of_gt hk
      · exact hhd e he

/-- A placed entry is found under its key, and the others as before. -/
theorem find_place [LawfulEqOrd κ] (k q : κ) (v : α) (l : List (κ × α)) :
    find q (place k v l) = if compare q k = .eq then some v else find q l := by
  induction l with
  | nil => by_cases h : compare q k = .eq <;> simp [place, find, h]
  | cons hd tl ih =>
    obtain ⟨k', v'⟩ := hd
    unfold place
    split
    · by_cases h : compare q k = .eq <;> simp [find, h]
    · rename_i hk
      obtain rfl := LawfulEqCmp.eq_of_compare hk
      by_cases h : compare q k = .eq <;> simp [find, h]
    · rename_i hk
      by_cases h : compare q k = .eq
      · obtain rfl := LawfulEqCmp.eq_of_compare h
        simp [find, hk, ih]
      · by_cases h' : compare q k' = .eq <;> simp [find, h, h', ih]

theorem find_eq_none_of_lt {k : κ} {l : List (κ × α)}
    (h : ∀ e ∈ l, compare k e.1 = .lt) : find k l = none := by
  induction l with
  | nil => rfl
  | cons hd tl ih =>
    have h' := h hd List.mem_cons_self
    simp [find, h', ih fun e he => h e (List.mem_cons_of_mem _ he)]

/-- Where the keys are in order, what is found is what is listed. -/
theorem find_eq_some_iff [LawfulEqOrd κ] {k : κ} {v : α} {l : List (κ × α)} (h : Increasing l) :
    find k l = some v ↔ (k, v) ∈ l := by
  induction l with
  | nil => simp [find]
  | cons hd tl ih =>
    obtain ⟨k', v'⟩ := hd
    obtain ⟨hhd, htl⟩ := List.pairwise_cons.1 h
    by_cases hk : compare k k' = .eq
    · obtain rfl := LawfulEqCmp.eq_of_compare hk
      have hn : ∀ w, (k, w) ∉ tl := fun w hw => by
        have := hhd _ hw
        simp at this
      simp [find, eq_comm, hn]
    · have hne : k ≠ k' := fun e => hk (e ▸ ReflCmp.compare_self)
      simp [find, hne, ih htl]

/-! ## Tables -/

@[ext] theorem ext {s t : Table κ α} (h : s.entries = t.entries) : s = t := by
  cases s; cases t; cases h; rfl

instance [DecidableEq κ] [DecidableEq α] : DecidableEq (Table κ α) := fun s t =>
  decidable_of_iff (s.entries = t.entries) ⟨ext, fun h => h ▸ rfl⟩

def empty : Table κ α := ⟨[], List.Pairwise.nil⟩

instance : EmptyCollection (Table κ α) := ⟨empty⟩

instance : Inhabited (Table κ α) := ⟨empty⟩

def get? (t : Table κ α) (k : κ) : Option α := find k t.entries

def contains (t : Table κ α) (k : κ) : Bool := (t.get? k).isSome

/-- Stores `v` under `k`, over an earlier value. -/
def insert [TransOrd κ] [LawfulEqOrd κ] (t : Table κ α) (k : κ) (v : α) : Table κ α :=
  ⟨place k v t.entries, increasing_place k v t.increasing⟩

/-- The entries of a list, later ones over earlier ones of the same key. -/
def ofList [TransOrd κ] [LawfulEqOrd κ] (l : List (κ × α)) : Table κ α :=
  l.foldl (fun t e => t.insert e.1 e.2) empty

def keys (t : Table κ α) : List κ := t.entries.map (·.1)

def values (t : Table κ α) : List α := t.entries.map (·.2)

def size (t : Table κ α) : Nat := t.entries.length

/-- Stores under `k` what `f` makes of the value already there. -/
def alter [TransOrd κ] [LawfulEqOrd κ] (t : Table κ α) (k : κ) (f : Option α → α) :
    Table κ α :=
  t.insert k (f (t.get? k))

@[simp] theorem get?_empty (k : κ) : (empty : Table κ α).get? k = none := rfl

/-- An inserted value is found under its key, and the others as before. -/
theorem get?_insert [TransOrd κ] [LawfulEqOrd κ] (t : Table κ α) (k q : κ) (v : α) :
    (t.insert k v).get? q = if compare q k = .eq then some v else t.get? q :=
  find_place k q v t.entries

@[simp] theorem get?_insert_self [TransOrd κ] [LawfulEqOrd κ] (t : Table κ α) (k : κ) (v : α) :
    (t.insert k v).get? k = some v := by
  simp [get?_insert]

theorem get?_insert_of_ne [TransOrd κ] [LawfulEqOrd κ] (t : Table κ α) {k q : κ} (v : α)
    (h : q ≠ k) : (t.insert k v).get? q = t.get? q := by
  have : compare q k ≠ .eq := fun e => h (LawfulEqCmp.eq_of_compare e)
  simp [get?_insert, this]

/-- The entries of a table are what is found in it. -/
theorem mem_entries_iff [LawfulEqOrd κ] (t : Table κ α) {k : κ} {v : α} :
    (k, v) ∈ t.entries ↔ t.get? k = some v :=
  (find_eq_some_iff t.increasing).symm

/-- No key has two entries. -/
theorem nodup_keys [LawfulEqOrd κ] (t : Table κ α) : t.keys.Nodup := by
  refine List.pairwise_map.mpr (t.increasing.imp fun {e e'} hlt => ?_)
  rintro heq
  simp [heq] at hlt

/-- Tables with the same look-ups are equal. -/
theorem ext_get? [TransOrd κ] [LawfulEqOrd κ] {s t : Table κ α}
    (h : ∀ k, s.get? k = t.get? k) : s = t := by
  obtain ⟨l, hl⟩ := s
  obtain ⟨m, hm⟩ := t
  congr
  simp only [get?] at h
  induction l generalizing m with
  | nil =>
    cases m with
    | nil => rfl
    | cons e m => have := h e.1; simp [find] at this
  | cons a l ih =>
    cases m with
    | nil => have := h a.1; simp [find] at this
    | cons b m =>
      obtain ⟨ha, hl'⟩ := List.pairwise_cons.1 hl
      obtain ⟨hb, hm'⟩ := List.pairwise_cons.1 hm
      have hab : compare a.1 b.1 = .eq := by
        have h₁ := h a.1
        have h₂ := h b.1
        simp only [find, ReflCmp.compare_self] at h₁ h₂
        cases hc : compare a.1 b.1 with
        | eq => rfl
        | lt =>
          simp only [hc] at h₁
          rw [find_eq_none_of_lt fun e he => TransCmp.lt_trans hc (hb e he)] at h₁
          exact absurd h₁ (by simp)
        | gt =>
          have hc' := OrientedCmp.lt_of_gt hc
          simp only [hc'] at h₂
          rw [find_eq_none_of_lt fun e he => TransCmp.lt_trans hc' (ha e he)] at h₂
          exact absurd h₂.symm (by simp)
      have hk := LawfulEqCmp.eq_of_compare hab
      have hv : a.2 = b.2 := by
        have := h a.1
        simpa [find, hab] using this
      refine List.cons_eq_cons.2 ⟨Prod.ext hk hv, ih hl' m hm' fun q => ?_⟩
      by_cases hq : compare q a.1 = .lt ∨ compare q a.1 = .eq
      · have lower {c : κ} (hc : compare a.1 c = .lt) : compare q c = .lt := by
          rcases hq with hq | hq
          · exact TransCmp.lt_trans hq hc
          · exact LawfulEqCmp.eq_of_compare hq ▸ hc
        rw [find_eq_none_of_lt fun e he => lower (ha e he),
          find_eq_none_of_lt fun e he => lower (hk ▸ hb e he)]
      · have := h q
        have h₁ : compare q a.1 ≠ .eq := fun e => hq (.inr e)
        have h₂ : compare q b.1 ≠ .eq := hk ▸ h₁
        simpa [find, h₁, h₂] using this

end Table

end SchemaCatalog
