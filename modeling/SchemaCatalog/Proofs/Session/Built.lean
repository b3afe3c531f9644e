import Mathlib.Data.List.Nodup
import SchemaCatalog.Proofs.Session.Adding
import SchemaCatalog.Proofs.Walk.Follow

/-!
# SchemaCatalog.Proofs.Session.Built

The sessions that can come about.  A session starts without registries; its
arena may then be changed in any way that removes no declaration, documents
are added, and walks are made, in any order.  What every such session keeps is
that its registries stand under their own namespaces and list roots that exist
(`Built.rooted`).
-/

namespace SchemaCatalog

namespace Session

/-- The session has been built by its operations. -/
inductive Built : Session → Prop
  | new (builtins : Builtins) (dedup : Bool) : Built { builtins, dedup }
  /-- Declarations are added, linked or changed; none is removed. -/
  | edit {s : Session} (h : Built s) (a : Arena) (hsize : s.arena.size ≤ a.size) :
    Built { s with arena := a }
  | add {s s' : Session} {root : NodeId} (h : Built s) (hadd : s.addDocument root = .ok s') :
    Built s'
  | walkAll {s : Session} (h : Built s) {σ : Type} (visit : Visitor σ) (state : σ) :
    Built (s.walkAll visit state).1
  | walkSpace {s : Session} (h : Built s) (space : String) {σ : Type} (visit : Visitor σ)
    (state : σ) : Built (s.walkSpace space visit state).1
  | resolve {s : Session} (h : Built s) (strict : Bool) : Built (s.resolveReferences strict).1

/-- Documents that are added to a built session leave it built. -/
theorem Built.addDocuments {s s' : Session} (h : s.Built) {roots : List NodeId}
    (hadd : s.addDocuments roots = .ok s') : s'.Built := by
  induction roots generalizing s with
  | nil =>
      obtain rfl : s = s' := by simpa [Session.addDocuments] using hadd
      exact h
  | cons root roots ih =>
      rw [Session.addDocuments] at hadd
      split at hadd
      · next s₁ hfirst => exact ih (h.add hfirst) hadd
      · contradiction

/-- Registries stand under their own namespaces and their roots exist. -/
structure Rooted (s : Session) : Prop where
  keyed : ∀ space r, s.registries.get? space = some r → r.targetSpace = space
  valid : ∀ space r, s.registries.get? space = some r → ∀ root ∈ r.roots, s.arena.Valid root

/-- Nothing about roots depends on the notes, and an arena that is not smaller
keeps them. -/
theorem Rooted.of_registries_eq {s s' : Session} (h : s.Rooted)
    (hregistries : s'.registries = s.registries) (hsize : s.arena.size ≤ s'.arena.size) :
    s'.Rooted := by
  constructor
  · rw [hregistries]
    exact h.keyed
  · rw [hregistries]
    intro space r hr root hroot
    exact Nat.lt_of_lt_of_le (h.valid space r hr root hroot) hsize

/-- A fragment is joined to a registry of its namespace by absorbing. -/
theorem joined_eq_absorb {s : Session} (h : s.Rooted) {fragment existing : Registry}
    (hget : s.registries.get? fragment.targetSpace = some existing) :
    s.joined fragment = existing.absorb s.dedup fragment := by
  have hspace := h.keyed _ _ hget
  simp only [joined, hget, Registry.mergeWith, if_pos hspace]

/-- The registry of a namespace looks up what the fragment has that is put into
it, and what it had. -/
theorem lookup_joined {s : Session} (h : s.Rooted) (fragment : Registry) (b : Bucket)
    (name : String) :
    (s.joined fragment).lookup b name = (fragment.lookup b name).or
      ((s.registries.get? fragment.targetSpace).bind (·.lookup b name)) := by
  cases hget : s.registries.get? fragment.targetSpace with
  | none => simp only [joined, hget, Option.bind_none, Option.or_none]
  | some existing => rw [joined_eq_absorb h hget, Registry.lookup_absorb, Option.bind_some]

/-- A joined fragment stays in its namespace. -/
theorem targetSpace_joined {s : Session} (h : s.Rooted) (fragment : Registry) :
    (s.joined fragment).targetSpace = fragment.targetSpace := by
  cases hget : s.registries.get? fragment.targetSpace with
  | none => simp only [joined, hget]
  | some existing =>
      have hspace := h.keyed _ _ hget
      rw [joined_eq_absorb h hget]
      exact hspace

/-- A registry gains the root of the added document and no other. -/
theorem roots_joined {s : Session} (h : s.Rooted) {root : NodeId} {d : Declaration} :
    (s.joined (s.fragment root d)).roots =
      match s.registries.get? (Registry.targetSpaceOf d) with
      | none => [root]
      | some existing => existing.roots ++ ([root].removeAll existing.roots).eraseDups := by
  cases hget : s.registries.get? (Registry.targetSpaceOf d) with
  | none =>
      rw [← targetSpace_fragment s root d] at hget
      simp only [joined, hget, roots_fragment]
  | some existing =>
      rw [← targetSpace_fragment s root d] at hget
      rw [joined_eq_absorb h hget, Registry.absorb, Registry.joinRoots_eq, roots_fragment]

/-- The roots of a joined fragment are its own and those that were there. -/
theorem mem_roots_joined {s : Session} (h : s.Rooted) {root q : NodeId} {d : Declaration}
    (hq : q ∈ (s.joined (s.fragment root d)).roots) :
    q = root ∨ ∃ existing, s.registries.get? (Registry.targetSpaceOf d) = some existing ∧
      q ∈ existing.roots := by
  rw [roots_joined h] at hq
  cases hget : s.registries.get? (Registry.targetSpaceOf d) with
  | none =>
      rw [hget] at hq
      exact .inl (List.mem_singleton.mp hq)
  | some existing =>
      rw [hget] at hq
      rcases List.mem_append.mp hq with hq | hq
      · exact .inr ⟨existing, rfl, hq⟩
      · rw [List.mem_eraseDups, List.removeAll, List.mem_filter] at hq
        exact .inl (List.mem_singleton.mp hq.1)

/-- Adding a document keeps roots where they belong. -/
theorem Rooted.add {s s' : Session} {root : NodeId} {d : Declaration} (h : s.Rooted)
    (hadd : s.Addition root d s') : s'.Rooted := by
  constructor
  · intro space r hr
    rw [hadd.registries] at hr
    by_cases hspace : space = Registry.targetSpaceOf d
    · rw [hspace, Table.get?_insert_self, Option.some.injEq] at hr
      rw [← hr, targetSpace_joined h, targetSpace_fragment, hspace]
    · rw [Table.get?_insert_of_ne _ _ hspace] at hr
      exact h.keyed space r hr
  · intro space r hr q hq
    rw [hadd.registries] at hr
    rw [hadd.arena]
    by_cases hspace : space = Registry.targetSpaceOf d
    · rw [hspace, Table.get?_insert_self, Option.some.injEq] at hr
      rw [← hr] at hq
      rcases mem_roots_joined h hq with rfl | ⟨existing, hget, hq⟩
      · exact Arena.valid_iff.mpr ⟨d, hadd.get?_root⟩
      · exact h.valid _ existing hget q hq
    · rw [Table.get?_insert_of_ne _ _ hspace] at hr
      exact h.valid space r hr q hq

theorem Rooted.marked {s : Session} (h : s.Rooted) (ids : List NodeId) : (s.marked ids).Rooted :=
  h.of_registries_eq rfl (by simp [Session.marked])

/-- A walk leaves a session rooted. -/
theorem Rooted.walkAll {s : Session} (h : s.Rooted) {σ : Type} (visit : Visitor σ) (state : σ) :
    (s.walkAll visit state).1.Rooted := by
  obtain ⟨ids, hids⟩ := exists_walkAll_fst s visit state
  rw [hids]
  exact h.marked ids

/-- Resolving references changes flags and notes and nothing else. -/
theorem exists_resolveReferences_fst (s : Session) (strict : Bool) :
    ∃ ids notes, (s.resolveReferences strict).1 = { s.marked ids with diagnostics := notes } := by
  obtain ⟨ids, hids⟩ := exists_walkAll_fst
    { s with diagnostics := s.diagnostics.append s.unfetchedNotes } Resolver.visit
    { builtins := s.builtins, strict }
  rw [resolveReferences]
  split
  · next s' r e heq =>
    rw [heq] at hids
    exact ⟨ids, _, hids⟩
  · next s' r t heq =>
    rw [heq] at hids
    have hs' : s' = _ := hids
    exact ⟨ids, _, by rw [hs', marked, marked]⟩

/-- **Roots exist** in every session that has been built by its operations. -/
theorem Built.rooted {s : Session} (h : s.Built) : s.Rooted := by
  induction h with
  | new builtins dedup =>
      constructor
      · intro space r hr
        exact absurd hr (by simp [EmptyCollection.emptyCollection])
      · intro space r hr
        exact absurd hr (by simp [EmptyCollection.emptyCollection])
  | edit _ a hsize ih => exact ih.of_registries_eq rfl hsize
  | add _ hadd ih =>
      obtain ⟨d, hadd⟩ := addition_of_addDocument hadd
      exact ih.add hadd
  | walkAll _ visit state ih => exact ih.walkAll visit state
  | @walkSpace s _ space σ visit state ih =>
      obtain ⟨ids, hids⟩ := exists_walkSpace_fst s space visit state
      rw [hids]
      exact ih.marked ids
  | @resolve s _ strict ih =>
      obtain ⟨ids, notes, hids⟩ := exists_resolveReferences_fst s strict
      rw [hids]
      exact (ih.marked ids).of_registries_eq rfl (Nat.le_refl _)

/-! ## walks of rooted sessions -/

/-- The registries are those that are found under some namespace. -/
theorem mem_registries_values {s : Session} {r : Registry} :
    r ∈ s.registries.values ↔ ∃ space, s.registries.get? space = some r := by
  simp only [Table.values, List.mem_map, Prod.exists, exists_eq_right, Table.mem_entries_iff]

theorem mem_registries_keys {s : Session} {space : String} :
    space ∈ s.registries.keys ↔ ∃ r, s.registries.get? space = some r := by
  simp only [Table.keys, List.mem_map, Prod.exists, exists_and_right, exists_eq_right,
    Table.mem_entries_iff]

/-- What the registries list between them is listed once, if each registry lists
it once and no two share it. -/
theorem nodup_flatMap_registries {s : Session} {α : Type} {f : Registry → List α}
    (honce : ∀ space r, s.registries.get? space = some r → (f r).Nodup)
    (hapart : ∀ space space' r r', s.registries.get? space = some r →
      s.registries.get? space' = some r' → space ≠ space' → (f r).Disjoint (f r')) :
    (s.registries.values.flatMap f).Nodup := by
  have hget : ∀ e ∈ s.registries.entries, s.registries.get? e.1 = some e.2 :=
    fun e he => s.registries.mem_entries_iff.mp he
  rw [Table.values, List.flatMap_map, List.nodup_flatMap]
  refine ⟨fun e he => honce e.1 e.2 (hget e he), ?_⟩
  refine (List.pairwise_map.mp (Table.nodup_keys s.registries)).imp_of_mem ?_
  intro e e' he he' hne
  exact hapart e.1 e'.1 e.2 e'.2 (hget e he) (hget e' he') hne

/-- The roots of a rooted session are in its arena. -/
theorem Rooted.valid_of_mem_values {s : Session} (h : s.Rooted) {r : Registry}
    (hr : r ∈ s.registries.values) {root : NodeId} (hroot : root ∈ r.roots) :
    s.arena.Valid root := by
  obtain ⟨space, hspace⟩ := mem_registries_values.mp hr
  exact h.valid space r hspace root hroot

/-- The tasks of a walk of some registries name declarations. -/
theorem Rooted.valid_target {s : Session} (h : s.Rooted) {registries : List Registry}
    (hmem : ∀ r ∈ registries, r ∈ s.registries.values) :
    ∀ t ∈ Walk.enterAll registries, s.arena.Valid t.target := by
  intro t ht
  obtain ⟨r, hr, root, hroot, rfl⟩ := Walk.mem_enterAll.mp ht
  exact h.valid_of_mem_values (hmem r hr) hroot

/-- In a closed arena a walk from the roots meets nothing unknown. -/
theorem Rooted.unknown_not_mem_itinerary {s : Session} (h : s.Rooted) (hclosed : s.arena.Closed)
    (id : NodeId) : Walk.Event.unknown id ∉ s.itinerary :=
  Walk.unknown_not_mem_route hclosed (h.valid_target fun _ hr => hr) id

end Session

end SchemaCatalog
