import SchemaCatalog.Proofs.Settings.Layering

/-!
# SchemaCatalog.Proofs.Settings.Paths

Layers seen through the paths that lead into them (`Raw.at?`).  If all layers
agree on where there are tables and where there are other values (`Shaped`),
then one that is laid over others changes nothing but what it has itself: at the
path of a value stands what the upper layer has there, and what the lower one
has if the upper has nothing (`Raw.laid_mergeAll`).
-/

namespace SchemaCatalog.Settings.Raw

open Toml (find? store find?_cons find?_store find?_eq_none mem_keys_store nodup_keys_store)

/-- What lies at the end of a path of keys. -/
def at? (v : Raw) : List String → Option Raw
  | [] => some v
  | key :: path => (find? v.entries key).bind fun w => w.at? path

def IsTable (v : Raw) : Prop := ∃ es, v = .table es

section

variable {v w target : Raw} {es : List (String × Raw)} {key k : String} {path : List String}

theorem at?_nil : v.at? [] = some v := rfl

theorem at?_cons : (table es).at? (key :: path) = (find? es key).bind (·.at? path) := rfl

theorem at?_key : (table es).at? [key] = find? es key := by
  rw [at?_cons]
  cases find? es key with
  | none => rfl
  | some w => rfl

/-- A path is followed one part after the other. -/
theorem at?_append (p q : List String) : v.at? (p ++ q) = (v.at? p).bind (·.at? q) := by
  induction p generalizing v with
  | nil => rfl
  | cons key p ih =>
      rw [List.cons_append, at?, at?, Option.bind_assoc]
      congr
      funext w
      exact ih

/-- Nothing lies in a value that is not a table. -/
theorem at?_eq_none (h : ¬ v.IsTable) : v.at? (key :: path) = none := by
  cases v with
  | table es => exact absurd ⟨es, rfl⟩ h
  | _ => rfl

/-- A path through a stored key leads into its value, and any other one past it. -/
theorem at?_store : (table (store key w es)).at? (k :: path) =
    if k = key then w.at? path else (table es).at? (k :: path) := by
  rw [at?_cons, find?_store]
  split <;> rfl

/-- A table with one key is left by that key only. -/
theorem at?_singleton :
    (table [(key, v)]).at? (k :: path) = if k = key then v.at? path else none := by
  rw [at?_cons, find?_cons]
  split <;> rfl

end

/-- No table that lies in the value has a key twice. -/
def Distinct (v : Raw) : Prop := ∀ path w, v.at? path = some w → (w.entries.map (·.1)).Nodup

/-! ## Shapes -/

/-- The value is a table if there is to be one, no key comes twice in it, and all
its keys are in lower case. -/
structure Fits (inner : Prop) (v : Raw) : Prop where
  table_iff : v.IsTable ↔ inner
  distinct : (v.entries.map (·.1)).Nodup
  lower : ∀ key ∈ v.entries.map (·.1), Text.lower key = key

/-- Whatever lies in the value fits, where there are to be tables at the paths
of a certain kind. -/
def Shaped (inner : List String → Prop) (v : Raw) : Prop :=
  ∀ path w, v.at? path = some w → w.Fits (inner path)

namespace Shaped

variable {inner : List String → Prop} {v w target : Raw} {es : List (String × Raw)} {key : String}

theorem fits (h : Shaped inner v) : v.Fits (inner []) := h [] v rfl

/-- An empty table has any shape that allows a table. -/
theorem empty (h : inner []) : Shaped inner (table []) := by
  intro path w hw
  cases path with
  | nil =>
      obtain rfl := Option.some.inj hw
      exact ⟨⟨fun _ => h, fun _ => ⟨[], rfl⟩⟩, List.nodup_nil, by simp [Raw.entries]⟩
  | cons key path => contradiction

/-- What lies under a key has the shape that remains. -/
theorem child (h : Shaped inner v) (hw : find? v.entries key = some w) :
    Shaped (fun path => inner (key :: path)) w :=
  fun path x hx => h (key :: path) x (by rw [at?, hw, Option.bind_some, hx])

/-- Storing a value of the right shape keeps the shape. -/
theorem store (h : Shaped inner (table es)) (hw : Shaped (fun path => inner (key :: path)) w)
    (hkey : Text.lower key = key) : Shaped inner (table (store key w es)) := by
  intro path x hx
  cases path with
  | nil =>
      obtain rfl := Option.some.inj hx
      refine ⟨⟨fun _ => h.fits.table_iff.mp ⟨es, rfl⟩, fun _ => ⟨_, rfl⟩⟩,
        nodup_keys_store h.fits.distinct, fun k hk => ?_⟩
      rcases mem_keys_store.mp hk with rfl | hk
      · exact hkey
      · exact h.fits.lower k hk
  | cons k path =>
      rw [at?_store] at hx
      split at hx
      · next hk => exact hk ▸ hw path x hx
      · exact h _ x hx

/-- A table without its first entry. -/
theorem tail (h : Shaped inner (table ((key, v) :: es))) : Shaped inner (table es) := by
  have hkeys := h.fits.distinct
  rw [Raw.entries, List.map_cons, List.nodup_cons] at hkeys
  intro path x hx
  cases path with
  | nil =>
      obtain rfl := Option.some.inj hx
      refine ⟨⟨fun _ => h.fits.table_iff.mp ⟨_, rfl⟩, fun _ => ⟨_, rfl⟩⟩, hkeys.2, fun k hk => ?_⟩
      exact h.fits.lower k (List.mem_cons_of_mem _ hk)
  | cons k path =>
      refine h (k :: path) x ?_
      rw [at?_cons, find?_cons]
      split
      · next hk =>
        subst hk
        rw [at?_cons, find?_eq_none hkeys.1] at hx
        contradiction
      · exact hx

/-- The first entry of a table. -/
theorem head (h : Shaped inner (table ((key, v) :: es))) :
    Text.lower key = key ∧ Shaped (fun path => inner (key :: path)) v :=
  ⟨h.fits.lower key List.mem_cons_self, h.child (by rw [Raw.entries, find?_cons, if_pos rfl])⟩

end Shaped

/-! ## Laying -/

/-- What comes of laying a value over another one of the same shape: it has that
shape too, and at the path of a value stands what the upper one has there, or
else what the lower one has. -/
structure Laid (inner : List String → Prop) (upper lower result : Raw) : Prop where
  shaped : Shaped inner result
  at?_eq : ∀ path, ¬ inner path → result.at? path = (upper.at? path).or (lower.at? path)

section

variable {inner : List String → Prop} {key : String} {v w target : Raw}

/-- A value that is stored under a key of a table. -/
theorem laid_store (htarget : Shaped inner target) (hinner : inner []) (hkey : Text.lower key = key)
    (hshaped : Shaped (fun path => inner (key :: path)) w)
    (hw : ∀ path, ¬ inner (key :: path) →
      w.at? path = (v.at? path).or (target.at? (key :: path))) :
    Laid inner (table [(key, v)]) target (table (store key w target.entries)) := by
  obtain ⟨ts, rfl⟩ := htarget.fits.table_iff.mpr hinner
  refine ⟨htarget.store hshaped hkey, fun path hpath => ?_⟩
  cases path with
  | nil => exact absurd hinner hpath
  | cons k path =>
      rw [Raw.entries, at?_store, at?_singleton]
      split
      · next hk =>
        subst hk
        exact hw path hpath
      · rfl

/-- A value other than a table takes the place of what was there. -/
theorem laid_value (hnot : ¬ v.IsTable) (hkey : Text.lower key = key)
    (hv : Shaped (fun path => inner (key :: path)) v) (htarget : Shaped inner target)
    (hinner : inner []) : Laid inner (table [(key, v)]) target (merge key v target) := by
  have hmerge : merge key v target = table (store key v target.entries) := by
    cases v with
    | table es => exact absurd ⟨es, rfl⟩ hnot
    | _ => simp only [merge, hkey]
  rw [hmerge]
  refine laid_store htarget hinner hkey hv fun path _ => ?_
  cases path with
  | nil => rfl
  | cons k path =>
      -- Nothing lies below the value, nor below what it replaces, which is no table either.
      rw [at?_eq_none hnot, Option.none_or, at?]
      cases hold : find? target.entries key with
      | none => rfl
      | some old =>
          have hleaf : ¬ old.IsTable := fun htable =>
            hnot (hv.fits.table_iff.mpr ((htarget.child hold).fits.table_iff.mp htable))
          exact (at?_eq_none hleaf).symm

end

mutual

/-- A value that is laid over what a table has under a key. -/
theorem laid_merge (v : Raw) {inner : List String → Prop} {key : String} {target : Raw}
    (hkey : Text.lower key = key) (hv : Shaped (fun path => inner (key :: path)) v)
    (htarget : Shaped inner target) (hinner : inner []) :
    Laid inner (table [(key, v)]) target (merge key v target) := by
  match v with
  | .table es =>
      have hchild : inner [key] := hv.fits.table_iff.mp ⟨es, rfl⟩
      have hexisting : Shaped (fun path => inner (key :: path))
          ((find? target.entries key).getD (table [])) := by
        cases hold : find? target.entries key with
        | none => exact .empty hchild
        | some old => exact htarget.child hold
      have hlaid := laid_mergeAll es hv hexisting
      simp only [merge, hkey]
      refine laid_store htarget hinner hkey hlaid.shaped fun path hpath => ?_
      rw [hlaid.at?_eq path hpath]
      cases path with
      | nil => exact absurd hchild hpath
      | cons k path =>
          have hbelow : target.at? (key :: k :: path) =
              (find? target.entries key).bind (·.at? (k :: path)) := rfl
          rw [hbelow]
          cases find? target.entries key with
          | none => rfl
          | some old => rfl
  | .nothing | .flag _ | .integer _ | .float _ | .text _ | .list _ =>
      exact laid_value (by rintro ⟨es, h⟩; contradiction) hkey hv htarget hinner

/-- **Entries that are laid over a table.** -/
theorem laid_mergeAll (es : List (String × Raw)) {inner : List String → Prop} {target : Raw}
    (hes : Shaped inner (table es)) (htarget : Shaped inner target) :
    Laid inner (table es) target (mergeAll es target) := by
  have hinner : inner [] := hes.fits.table_iff.mp ⟨es, rfl⟩
  match es with
  | [] =>
      refine ⟨htarget, fun path hpath => ?_⟩
      cases path with
      | nil => exact absurd hinner hpath
      | cons key path => rfl
  | (key, v) :: es =>
      obtain ⟨hkey, hv⟩ := hes.head
      have hfirst := laid_merge v hkey hv htarget hinner
      have hrest := laid_mergeAll es hes.tail hfirst.shaped
      refine ⟨hrest.shaped, fun path hpath => ?_⟩
      rw [mergeAll, hrest.at?_eq path hpath, hfirst.at?_eq path hpath, ← Option.or_assoc]
      congr 1
      cases path with
      | nil => exact absurd hinner hpath
      | cons k path =>
          have hnodup := hes.fits.distinct
          rw [Raw.entries, List.map_cons, List.nodup_cons] at hnodup
          rw [at?_singleton, at?_cons, at?_cons, find?_cons]
          split
          · next hk =>
            rw [hk, find?_eq_none hnodup.1, Option.bind_none, Option.none_or, Option.bind_some]
          · rw [Option.or_none]

end

/-- The last of what is found in a list comes from its head only if nothing is
found in the rest. -/
theorem getLast?_filterMap_cons {α β : Type} (f : α → Option β) (a : α) (as : List α) :
    ((a :: as).filterMap f).getLast? = ((as.filterMap f).getLast?).or (f a) := by
  rw [List.filterMap_cons]
  cases f a with
  | none => rw [Option.or_none]
  | some b =>
      rw [List.getLast?_cons]
      cases (as.filterMap f).getLast? with
      | none => rfl
      | some x => rfl

/-- **Layers that are laid one after the other.**  At the path of a value stands
what the last one has there that has anything. -/
theorem laid_foldl {inner : List String → Prop} {ls : List (List (String × Raw))} {target : Raw}
    (hls : ∀ l ∈ ls, Shaped inner (table l)) (htarget : Shaped inner target) :
    Shaped inner (ls.foldl (fun root l => mergeAll l root) target) ∧
      ∀ path, ¬ inner path → (ls.foldl (fun root l => mergeAll l root) target).at? path =
        ((ls.filterMap fun l => (table l).at? path).getLast?).or (target.at? path) := by
  induction ls generalizing target with
  | nil => exact ⟨htarget, fun _ _ => rfl⟩
  | cons l ls ih =>
      obtain ⟨hl, hls⟩ := List.forall_mem_cons.mp hls
      have hlaid := laid_mergeAll l hl htarget
      obtain ⟨hshaped, hat⟩ := ih hls hlaid.shaped
      refine ⟨hshaped, fun path hpath => ?_⟩
      rw [List.foldl_cons, hat path hpath, hlaid.at?_eq path hpath, getLast?_filterMap_cons,
        Option.or_assoc]

end SchemaCatalog.Settings.Raw
