import Mathlib.Data.List.Nodup
import SchemaCatalog.Proofs.Session.LastWins

/-!
# SchemaCatalog.Proofs.Session.Repetition

How often a registry lists an external reference, if repetitions are dropped
when documents are merged.  The first document of a namespace is not merged
into anything, so what it repeats stays, and it is the only one of which that
is true (`count_externalReferences`): a registry lists nothing twice if and
only if the document that was first does not ask for anything twice.

If none of the documents does, then the order in which they were added does not
matter to what is listed, and not to the notes on what is not loaded
(`references_of_adds`).  If one does, it does matter
(`references_repeated`).
-/

namespace SchemaCatalog

namespace Registry

/-! ## counting references -/

/-- With deduplication a reference is added once, if it is new. -/
theorem count_addedReferences (seen refs : List ExternalReference) (e : ExternalReference) :
    (addedReferences true seen refs).count e = if e ∈ refs ∧ e ∉ seen then 1 else 0 := by
  rw [addedReferences, if_pos rfl, (nodup_eraseDups _).count]
  simp only [List.mem_eraseDups, List.removeAll, List.mem_filter, List.elem_eq_mem,
    Bool.not_eq_true', decide_eq_false_iff_not]

section

variable {builtins : Builtins} {a : Arena} {space : String} {first : NodeId × Declaration}
  {later : List (NodeId × Declaration)} {r : Registry}

/-- **What is listed how often**: a reference of the first document as often as
the document asks for it, and any other one once. -/
theorem Represents.count_externalReferences (h : Represents builtins true a space first later r)
    (e : ExternalReference) :
    r.externalReferences.count e =
      if e ∈ asked builtins space a first then (asked builtins space a first).count e
      else if e ∈ later.flatMap (asked builtins space a) then 1 else 0 := by
  rw [h.externalReferences, List.count_append, count_addedReferences]
  by_cases hfirst : e ∈ asked builtins space a first
  · simp [hfirst]
  · simp only [hfirst, List.count_eq_zero_of_not_mem hfirst, not_false_eq_true, and_true, if_false,
      Nat.zero_add]

/-- A registry has the references that some document of its namespace asks for. -/
theorem Represents.mem_externalReferences (h : Represents builtins true a space first later r)
    (e : ExternalReference) :
    e ∈ r.externalReferences ↔ ∃ p ∈ first :: later, e ∈ asked builtins space a p := by
  rw [← List.mem_flatMap, List.flatMap_cons, List.mem_append, ← List.count_pos_iff,
    h.count_externalReferences]
  by_cases hfirst : e ∈ asked builtins space a first
  · rw [if_pos hfirst, List.count_pos_iff]
    exact iff_of_true hfirst (.inl hfirst)
  · rw [if_neg hfirst]
    by_cases hlater : e ∈ later.flatMap (asked builtins space a)
    · simp [hlater]
    · simp [hfirst, hlater]

/-- Whether anything is listed twice is up to the first document. -/
theorem Represents.nodup_externalReferences_iff
    (h : Represents builtins true a space first later r) :
    r.externalReferences.Nodup ↔ (asked builtins space a first).Nodup := by
  simp only [List.nodup_iff_count_le_one, h.count_externalReferences]
  refine forall_congr' fun e => ?_
  by_cases hfirst : e ∈ asked builtins space a first
  · rw [if_pos hfirst]
  · rw [if_neg hfirst, List.count_eq_zero_of_not_mem hfirst]
    split <;> simp

end

end Registry

namespace Session

/-! ## notes on what is not loaded -/

/-- Resolving references notes what is not loaded, be the walk successful or
not, and makes no other note of this kind. -/
theorem withCode_resolveReferences (s : Session) (strict : Bool) :
    (s.resolveReferences strict).1.diagnostics.withCode .unfetchedReference =
      s.diagnostics.withCode .unfetchedReference ++ s.unfetchedNotes := by
  have hunfetched : s.unfetchedNotes.filter (·.code = .unfetchedReference) = s.unfetchedNotes := by
    refine List.filter_eq_self.mpr fun n hn => ?_
    obtain ⟨p, -, rfl⟩ := List.mem_map.mp hn
    rfl
  have hopen : ∀ (a : Arena) (os : List OpenReference),
      (os.map (openNote a)).filter (·.code = .unfetchedReference) = [] := by
    intro a os
    refine List.filter_eq_nil_iff.mpr fun n hn => ?_
    obtain ⟨o, -, rfl⟩ := List.mem_map.mp hn
    simp [openNote, Diagnostic.unresolvedReference]
  obtain ⟨ids, hids⟩ := exists_walkAll_fst
    { s with diagnostics := s.diagnostics.append s.unfetchedNotes } Resolver.visit
    { builtins := s.builtins, strict }
  rw [resolveReferences]
  split
  · next s' r e heq =>
    rw [heq] at hids
    have hs' : s' = _ := hids
    simp only [hs', marked, Diagnostics.withCode, Diagnostics.append, List.filter_append,
      hunfetched]
  · next s' r t heq =>
    rw [heq] at hids
    have hs' : s' = _ := hids
    simp only [hs', marked, Diagnostics.withCode, Diagnostics.append, List.filter_append,
      hunfetched, hopen, List.append_nil]

/-! ## documents that ask for nothing twice -/

/-- None of the documents asks for anything twice. -/
def AskOnce (s : Session) (roots : List NodeId) : Prop :=
  ∀ p ∈ s.arena.look roots,
    (Registry.asked s.builtins ((p.2.attr? "targetNamespace").getD p.2.space) s.arena p).Nodup

section

variable {s t : Session} {roots : List NodeId} {space : String} {r : Registry}

/-- A reference is unfetched if its namespace has no registry. -/
theorem mem_unfetched {p : String × ExternalReference} (hrooted : s.Rooted) :
    p ∈ s.unfetched ↔ ∃ r, s.registries.get? p.1 = some r ∧ p.2 ∈ r.externalReferences ∧
      s.registries.contains p.2.space = false := by
  obtain ⟨space, e⟩ := p
  simp only [unfetched, List.mem_flatMap, List.mem_map, List.mem_filter, mem_registries_values,
    Prod.mk.injEq, Bool.not_eq_true']
  constructor
  · rintro ⟨r, ⟨space', hr⟩, e', ⟨he, hmissing⟩, rfl, rfl⟩
    rw [← hrooted.keyed space' r hr] at hr
    exact ⟨r, hr, he, hmissing⟩
  · rintro ⟨r, hr, he, hmissing⟩
    exact ⟨r, ⟨space, hr⟩, e, ⟨he, hmissing⟩, hrooted.keyed space r hr, rfl⟩

/-- Without repeated references nothing is unfetched twice. -/
theorem nodup_unfetched (hrooted : s.Rooted)
    (h : ∀ space r, s.registries.get? space = some r → r.externalReferences.Nodup) :
    s.unfetched.Nodup := by
  refine nodup_flatMap_registries ?_ ?_
  · intro space r hr
    exact ((h space r hr).filter _).map fun x y hxy => (Prod.mk.inj hxy).2
  · intro space space' r r' hr hr' hne p hp hp'
    obtain ⟨x, -, rfl⟩ := List.mem_map.mp hp
    obtain ⟨x', -, hx'⟩ := List.mem_map.mp hp'
    have hspace := (Prod.mk.inj hx').1
    rw [hrooted.keyed _ _ hr, hrooted.keyed _ _ hr'] at hspace
    exact hne hspace.symm

/-- A registry of documents that ask for nothing twice lists nothing twice. -/
theorem Represented.nodup_externalReferences (h : s.Represented roots) (hdedup : s.dedup = true)
    (honce : s.AskOnce roots) (hr : s.registries.get? space = some r) :
    r.externalReferences.Nodup := by
  obtain ⟨first, later, hdocs, hrep⟩ := (h.represents space).of_get? hr
  rw [hdedup] at hrep
  have hfirst : first ∈ documents s.arena space roots := by
    rw [hdocs]
    exact List.mem_cons_self
  obtain ⟨hmem, hspace⟩ := List.mem_filter.mp hfirst
  have hnodup := honce first hmem
  rw [of_decide_eq_true hspace] at hnodup
  exact hrep.nodup_externalReferences_iff.mpr hnodup

/-- A registry lists what the documents of its namespace ask for. -/
theorem Represented.mem_externalReferences (h : s.Represented roots) (hdedup : s.dedup = true)
    (hr : s.registries.get? space = some r) (e : ExternalReference) :
    e ∈ r.externalReferences ↔
      ∃ p ∈ documents s.arena space roots, e ∈ Registry.asked s.builtins space s.arena p := by
  obtain ⟨first, later, hdocs, hrep⟩ := (h.represents space).of_get? hr
  rw [hdedup] at hrep
  rw [hrep.mem_externalReferences, hdocs]

/-- The registry of a namespace is there if one of the documents has it. -/
theorem Represented.get?_eq_none_iff (h : s.Represented roots) (space : String) :
    s.registries.get? space = none ↔ documents s.arena space roots = [] := by
  have hrep := h.represents space
  constructor
  · intro hnone
    by_contra hne
    obtain ⟨r, hr⟩ := hrep.exists_get? hne
    rw [hnone] at hr
    contradiction
  · intro hnil
    rw [hnil] at hrep
    exact hrep

end

/-- A permutation of the roots permutes the documents of a namespace. -/
theorem perm_documents (a : Arena) (space : String) {roots roots' : List NodeId}
    (h : roots'.Perm roots) : (documents a space roots').Perm (documents a space roots) :=
  (h.filterMap _).filter _

/-! ## the order of documents -/

/-- The sessions hold the same documents, added in perhaps another order, and
drop repetitions. -/
structure Reordered (s : Session) (roots : List NodeId) (s' : Session) (roots' : List NodeId) :
    Prop where
  represented : s.Represented roots
  represented' : s'.Represented roots'
  dedup : s.dedup = true
  dedup' : s'.dedup = true
  builtins : s'.builtins = s.builtins
  arena : s'.arena = s.arena
  perm : roots'.Perm roots

section

variable {s s' : Session} {roots roots' : List NodeId}

/-- Reordering does not make a document ask twice. -/
theorem Reordered.askOnce (h : s.Reordered roots s' roots') (honce : s.AskOnce roots) :
    s'.AskOnce roots' := by
  intro p hp
  rw [h.arena] at hp ⊢
  rw [h.builtins]
  exact honce p ((h.perm.filterMap _).mem_iff.mp hp)

/-- Reordering does not affect which namespaces have a registry. -/
theorem Reordered.contains_iff (h : s.Reordered roots s' roots') (space : String) :
    s'.registries.contains space = s.registries.contains space := by
  have hperm := perm_documents s.arena space h.perm
  have hnone : s'.registries.get? space = none ↔ s.registries.get? space = none := by
    rw [h.represented'.get?_eq_none_iff, h.represented.get?_eq_none_iff, h.arena]
    exact ⟨fun hnil => (hnil ▸ hperm).nil_eq.symm, fun hnil => (hnil ▸ hperm).eq_nil⟩
  rw [Table.contains, Table.contains, Bool.eq_iff_iff, Option.isSome_iff_ne_none,
    Option.isSome_iff_ne_none]
  exact not_congr hnone

/-- Reordering does not affect which references a registry has. -/
theorem Reordered.mem_externalReferences_iff (h : s.Reordered roots s' roots') {space : String}
    {r r' : Registry} (hr : s.registries.get? space = some r)
    (hr' : s'.registries.get? space = some r') (e : ExternalReference) :
    e ∈ r'.externalReferences ↔ e ∈ r.externalReferences := by
  rw [h.represented'.mem_externalReferences h.dedup' hr',
    h.represented.mem_externalReferences h.dedup hr, h.arena, h.builtins]
  simp only [(perm_documents s.arena space h.perm).mem_iff]

/-- **What a registry lists** does not depend on the order. -/
theorem Reordered.perm_externalReferences (h : s.Reordered roots s' roots')
    (honce : s.AskOnce roots) {space : String} {r r' : Registry}
    (hr : s.registries.get? space = some r) (hr' : s'.registries.get? space = some r') :
    r'.externalReferences.Perm r.externalReferences :=
  (List.perm_ext_iff_of_nodup
    (h.represented'.nodup_externalReferences h.dedup' (h.askOnce honce) hr')
    (h.represented.nodup_externalReferences h.dedup honce hr)).mpr
    (h.mem_externalReferences_iff hr hr')

/-- **What is not loaded** does not depend on it either. -/
theorem Reordered.perm_unfetched (h : s.Reordered roots s' roots') (honce : s.AskOnce roots)
    (hrooted : s.Rooted) (hrooted' : s'.Rooted) : s'.unfetched.Perm s.unfetched := by
  have hnodup := nodup_unfetched hrooted fun _ _ hr =>
    h.represented.nodup_externalReferences h.dedup honce hr
  have hnodup' := nodup_unfetched hrooted' fun _ _ hr =>
    h.represented'.nodup_externalReferences h.dedup' (h.askOnce honce) hr
  refine (List.perm_ext_iff_of_nodup hnodup' hnodup).mpr fun p => ?_
  rw [mem_unfetched hrooted', mem_unfetched hrooted, h.contains_iff]
  have hcontains := h.contains_iff p.1
  simp only [Table.contains] at hcontains
  constructor
  · rintro ⟨r', hr', he, hmissing⟩
    rw [hr', Option.isSome_some] at hcontains
    obtain ⟨r, hr⟩ := Option.isSome_iff_exists.mp hcontains.symm
    exact ⟨r, hr, (h.mem_externalReferences_iff hr hr' _).mp he, hmissing⟩
  · rintro ⟨r, hr, he, hmissing⟩
    rw [hr, Option.isSome_some] at hcontains
    obtain ⟨r', hr'⟩ := Option.isSome_iff_exists.mp hcontains
    exact ⟨r', hr', (h.mem_externalReferences_iff hr hr' _).mpr he, hmissing⟩

end

/-- **References after adding documents**, while repetitions are dropped.  A
registry lists a reference of the first document of its namespace as often as
that document asks for it, and any other reference once.  So if no document asks
for anything twice, no registry lists anything twice, and the order of the
documents matters neither to what is listed nor to the notes that resolution
makes on what is not loaded. -/
theorem references_of_adds {a : Arena} {builtins : Builtins} {roots : List NodeId} {s : Session}
    (h : Adds { arena := a, builtins, dedup := true } roots s) :
    (∀ space r, s.registry? space = some r → ∃ first later,
      documents s.arena space roots = first :: later ∧
      (r.externalReferences.Nodup ↔ (Registry.asked builtins space s.arena first).Nodup) ∧
      ∀ e, r.externalReferences.count e =
        if e ∈ Registry.asked builtins space s.arena first then
          (Registry.asked builtins space s.arena first).count e
        else if e ∈ later.flatMap (Registry.asked builtins space s.arena) then 1 else 0) ∧
    (s.AskOnce roots →
      (∀ space r, s.registry? space = some r → r.externalReferences.Nodup) ∧
      ∀ roots' s', Adds { arena := a, builtins, dedup := true } roots' s' → s'.arena = s.arena →
        roots'.Perm roots →
        (∀ space r r', s.registry? space = some r → s'.registry? space = some r' →
          r'.externalReferences.Perm r.externalReferences) ∧
        ∀ strict, ∃ notes notes',
          (s.resolveReferences strict).1.diagnostics.withCode .unfetchedReference =
            s.diagnostics.withCode .unfetchedReference ++ notes ∧
          (s'.resolveReferences strict).1.diagnostics.withCode .unfetchedReference =
            s'.diagnostics.withCode .unfetchedReference ++ notes' ∧
          notes'.Perm notes) := by
  have hrooted : ({ arena := a, builtins, dedup := true } : Session).Rooted :=
    (Built.new builtins true |>.edit a (Nat.zero_le _)).rooted
  have hrepresented := h.represented hrooted (represented_new a builtins true)
  obtain ⟨-, hbuiltins, hdedup, hkept⟩ := h.frame
  refine ⟨?_, fun honce => ⟨fun space r hr =>
    hrepresented.nodup_externalReferences hdedup honce hr, ?_⟩⟩
  · intro space r hr
    obtain ⟨first, later, hdocs, hrep⟩ := (hrepresented.represents space).of_get? hr
    rw [hbuiltins, hdedup] at hrep
    exact ⟨first, later, hdocs, hrep.nodup_externalReferences_iff, hrep.count_externalReferences⟩
  · intro roots' s' h' harena hperm
    have hrepresented' := h'.represented hrooted (represented_new a builtins true)
    obtain ⟨-, hbuiltins', hdedup', hkept'⟩ := h'.frame
    have hreordered : s.Reordered roots s' roots' :=
      ⟨hrepresented, hrepresented', hdedup, hdedup', hbuiltins'.trans hbuiltins.symm, harena, hperm⟩
    refine ⟨fun space r r' hr hr' => hreordered.perm_externalReferences honce hr hr', ?_⟩
    intro strict
    exact ⟨s.unfetchedNotes, s'.unfetchedNotes, withCode_resolveReferences s strict,
      withCode_resolveReferences s' strict,
      (hreordered.perm_unfetched honce (hkept hrooted) (hkept' hrooted)).map _⟩

/-! ## two documents that ask for a third one -/

/-- A document that asks for another one, once or twice, and a document that
asks for the same one. -/
def askingArena (times : Nat) : Arena where
  nodes := #[
    { kind := .schema, space := "urn:a", children := List.replicate times ⟨2⟩ },
    { kind := .schema, space := "urn:a", children := [⟨2⟩] },
    { kind := .importation, space := "urn:a"
      attributes := .ofList [("namespace", "urn:b"), ("schemaLocation", "x.xsd")] }]

def askingSession (times : Nat) (roots : List NodeId) : Session :=
  ((({ arena := askingArena times } : Session).addDocuments roots).toOption).getD {}

theorem adds_askingSession_once :
    Adds { arena := askingArena 1 } [⟨0⟩, ⟨1⟩] (askingSession 1 [⟨0⟩, ⟨1⟩]) ∧
      Adds { arena := askingArena 1 } [⟨1⟩, ⟨0⟩] (askingSession 1 [⟨1⟩, ⟨0⟩]) :=
  ⟨adds_of_addDocuments rfl, adds_of_addDocuments rfl⟩

/-- If both documents ask once, the order does not matter. -/
theorem references_of_adds_once :
    Adds { arena := askingArena 1 } [⟨0⟩, ⟨1⟩] (askingSession 1 [⟨0⟩, ⟨1⟩]) ∧
      (askingSession 1 [⟨0⟩, ⟨1⟩]).AskOnce [⟨0⟩, ⟨1⟩] ∧
      ∃ r r', (askingSession 1 [⟨0⟩, ⟨1⟩]).registries.get? "urn:a" = some r ∧
        (askingSession 1 [⟨1⟩, ⟨0⟩]).registries.get? "urn:a" = some r' ∧
        r.externalReferences.Nodup ∧ r'.externalReferences.Perm r.externalReferences := by
  obtain ⟨hadds, hadds'⟩ := adds_askingSession_once
  have honce : (askingSession 1 [⟨0⟩, ⟨1⟩]).AskOnce [⟨0⟩, ⟨1⟩] := by
    rw [AskOnce]
    decide +kernel
  obtain ⟨-, hasked⟩ := references_of_adds hadds
  obtain ⟨hnodup, hordered⟩ := hasked honce
  obtain ⟨hperm, -⟩ := hordered _ _ hadds' rfl (.swap _ _ _)
  exact ⟨hadds, honce, _, _, rfl, rfl, hnodup "urn:a" _ rfl, hperm "urn:a" _ _ rfl rfl⟩

/-- **Repeated**: if the first of the documents asks twice, the registry lists
the reference twice, and two notes are made on it.  In the other order it is one
of each. -/
theorem references_repeated :
    Adds { arena := askingArena 2 } [⟨0⟩, ⟨1⟩] (askingSession 2 [⟨0⟩, ⟨1⟩]) ∧
      Adds { arena := askingArena 2 } [⟨1⟩, ⟨0⟩] (askingSession 2 [⟨1⟩, ⟨0⟩]) ∧
      ∃ r r', (askingSession 2 [⟨0⟩, ⟨1⟩]).registries.get? "urn:a" = some r ∧
        (askingSession 2 [⟨1⟩, ⟨0⟩]).registries.get? "urn:a" = some r' ∧
        ¬ r.externalReferences.Nodup ∧
        r.externalReferences.length = 2 ∧ r'.externalReferences.length = 1 ∧
        (((askingSession 2 [⟨0⟩, ⟨1⟩]).resolveReferences false).1.diagnostics.withCode
          .unfetchedReference).length = 2 ∧
        (((askingSession 2 [⟨1⟩, ⟨0⟩]).resolveReferences false).1.diagnostics.withCode
          .unfetchedReference).length = 1 := by
  refine ⟨adds_of_addDocuments rfl, adds_of_addDocuments rfl, _, _, rfl, rfl, ?_⟩
  rw [withCode_resolveReferences, withCode_resolveReferences]
  decide +kernel

end Session

end SchemaCatalog
