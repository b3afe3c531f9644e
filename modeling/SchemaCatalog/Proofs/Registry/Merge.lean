import SchemaCatalog.Registry.Merge

/-!
# SchemaCatalog.Proofs.Registry.Merge

A merge, seen through look-ups and list operations of the library: buckets are
united with the source's entries on top (`lookup_absorb`), roots and external
references keep what the target has and take what is new, each at its first
occurrence (`joinRoots_eq`, `nodup_joinRoots`, `freshReferences_eq`).
-/

namespace SchemaCatalog

/-- Erasing duplicates leaves none. -/
theorem nodup_eraseDups {α : Type} [DecidableEq α] (xs : List α) : xs.eraseDups.Nodup := by
  match xs with
  | [] => exact .nil
  | x :: xs =>
      rw [List.eraseDups_cons, List.nodup_cons, List.mem_eraseDups]
      exact ⟨by simp, nodup_eraseDups (xs.filter fun y => !y == x)⟩
  termination_by xs.length
  decreasing_by exact Nat.lt_succ_of_le (List.length_filter_le _ _)

namespace Registry

/-! ## buckets -/

/-- Inserting entries of increasing keys puts them over what is there. -/
theorem get?_foldl_insert (t : Table String NodeId) {entries : List (String × NodeId)}
    (h : Increasing entries) (name : String) :
    (entries.foldl (fun t e => t.insert e.1 e.2) t).get? name =
      (Table.find name entries).or (t.get? name) := by
  induction entries generalizing t with
  | nil => rfl
  | cons e entries ih =>
      obtain ⟨hfirst, hrest⟩ := List.pairwise_cons.mp h
      rw [List.foldl_cons, ih _ hrest, Table.get?_insert]
      by_cases hname : compare name e.1 = .eq
      · obtain rfl := Std.LawfulEqCmp.eq_of_compare hname
        have hnone : Table.find e.1 entries = none := Table.find_eq_none_of_lt hfirst
        rw [hnone, if_pos hname, Option.none_or]
        simp [Table.find]
      · rw [if_neg hname]
        have hfind : Table.find name (e :: entries) = Table.find name entries := by
          simp only [Table.find]
        rw [hfind]

theorem get?_overlay (target source : Table String NodeId) (name : String) :
    (overlay target source).get? name = (source.get? name).or (target.get? name) :=
  get?_foldl_insert target source.increasing name

/-- **The source wins**: after a merge a name leads where the source had it,
else where the target had it. -/
theorem lookup_absorb (dedup : Bool) (target source : Registry) (b : Bucket) (name : String) :
    (absorb dedup target source).lookup b name =
      (source.lookup b name).or (target.lookup b name) := by
  simp only [lookup, bucket, absorb, PerBucket.get_ofFn, get?_overlay]

/-! ## roots and references -/

/-- The fresh references are the unseen ones without repetitions. -/
theorem freshReferences_eq (seen refs : List ExternalReference) :
    freshReferences seen refs = (refs.removeAll seen).eraseDups := by
  induction refs generalizing seen with
  | nil => rfl
  | cons r refs ih =>
      rw [freshReferences, List.cons_removeAll]
      by_cases hr : r ∈ seen
      · simp [hr, ih]
      · have hbeq : ∀ x, (x == r) = decide (x = r) := fun _ => rfl
        simp [hr, ih, hbeq, List.eraseDups_cons, List.removeAll, List.filter_filter]

/-- Joining keeps the roots that are there and appends new ones once. -/
theorem joinRoots_eq (roots more : List NodeId) :
    joinRoots roots more = roots ++ (more.removeAll roots).eraseDups := by
  induction more generalizing roots with
  | nil => simp [joinRoots]
  | cons r more ih =>
      rw [joinRoots, List.foldl_cons, ← joinRoots, List.cons_removeAll]
      by_cases hr : r ∈ roots
      · simp [hr, ih]
      · have hbeq : ∀ x, (x == r) = decide (x = r) := fun _ => rfl
        simp [hr, ih, hbeq, List.eraseDups_cons, List.removeAll, List.filter_filter, Bool.and_comm]

/-- The joined roots are those of both lists. -/
theorem mem_joinRoots {roots more : List NodeId} {q : NodeId} :
    q ∈ joinRoots roots more ↔ q ∈ roots ∨ q ∈ more := by
  by_cases hq : q ∈ roots <;> simp [joinRoots_eq, List.removeAll, hq]

/-- No root is listed twice. -/
theorem nodup_joinRoots {roots : List NodeId} (h : roots.Nodup) (more : List NodeId) :
    (joinRoots roots more).Nodup := by
  induction more generalizing roots with
  | nil => exact h
  | cons r more ih =>
      rw [joinRoots, List.foldl_cons, ← joinRoots]
      by_cases hr : r ∈ roots
      · rw [if_pos hr]
        exact ih h
      · rw [if_neg hr]
        have hne : ∀ x ∈ roots, x ≠ r := fun x hx hxr => hr (hxr ▸ hx)
        have happend : (roots ++ [r]).Nodup := by
          simpa [List.nodup_append, h] using hne
        exact ih happend

end Registry

end SchemaCatalog
