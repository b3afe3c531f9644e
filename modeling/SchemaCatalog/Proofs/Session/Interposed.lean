import SchemaCatalog.Proofs.Renumbering.Session
import SchemaCatalog.Proofs.Session.Integrity

/-!
# SchemaCatalog.Proofs.Session.Interposed

Texts that fail to load do no harm.  What one of them leaves in the arena is set
apart: nothing that was there before changes, and no edge leads from there to the
leftovers, unless a child was listed before it existed (`Arena.harmless_load`).

Now let one session go through any operations, and another one through the same
operations, with failed loads in between.  A failed load only raises the numbers of
the declarations that are still to come (`Arena.leaving`), so the operations are the
same up to numbers, which keep their order (`Session.Interposed`).  As long as no
child waits for its declaration when a load fails, the sessions mirror each other at
every moment, and everything that can be done next has the same answer in both
(`Session.failed_loads_harmless`).
-/

namespace SchemaCatalog

namespace Arena

/-- Nothing is appended if the text is not read. -/
theorem eq_of_load_notJson {a b : Arena} {text : String} {fault : Json.Fault}
    (h : a.load text = (b, .error (.notJson fault))) : b = a := by
  rw [load] at h
  split at h
  · exact (congrArg Prod.fst h).symm
  · split at h
    · simp at h
    · simp at h

/-- **What is loaded is set apart**, well or not.  It is appended, unflagged and with
its children among itself, and nothing else is changed, so that an earlier
declaration leads there only if it has listed a child that did not exist; in a closed
arena none does. -/
theorem harmless_load (a : Arena) (text : String) :
    Annexed a (a.load text).1 ∧
      (∀ fault, (a.load text).2 = .error (.notJson fault) → (a.load text).1 = a) ∧
      ∀ p c, a.Valid p → (a.load text).1.Edge p c → a.Edge p c ∧ (a.Closed → a.Valid c) := by
  have hannexed := annexed_load a text
  refine ⟨hannexed, fun fault hfault => eq_of_load_notJson (Prod.ext rfl hfault), ?_⟩
  intro p c hp hpc
  have hbefore : a.Edge p c := (hannexed.grown.edge_iff hp).mp hpc
  exact ⟨hbefore, hbefore.valid_right⟩

end Arena

namespace Session

open Walk

/-! ## nodes that exist -/

/-- All nodes that registries and notes mention are declarations of the arena. -/
structure Grounded (s : Session) : Prop where
  registries : ∀ space r, s.registries.get? space = some r → r.Within s.arena
  notes : ∀ n ∈ s.diagnostics.items, ∀ id, n.node = some id → s.arena.Valid id

/-- A new session is grounded. -/
theorem grounded_new (builtins : Builtins) (dedup : Bool) : Grounded { builtins, dedup } where
  registries := by
    intro space r hr
    simp [EmptyCollection.emptyCollection] at hr
  notes := by
    intro n hn
    simp at hn

section

variable {f : NodeId → NodeId} {s t : Session}

/-- A session stays grounded as its arena gets larger. -/
theorem Grounded.withArena (h : s.Grounded) {a : Arena} (hsize : s.arena.size ≤ a.size) :
    Grounded { s with arena := a } where
  registries := fun space r hr => (h.registries space r hr).mono hsize
  notes := fun n hn id hid => Nat.lt_of_lt_of_le (h.notes n hn id hid) hsize

theorem Grounded.marked (h : s.Grounded) (ids : List NodeId) : (s.marked ids).Grounded :=
  h.withArena (Nat.le_of_eq (Arena.size_markAll s.arena ids).symm)

/-- Joining a fragment of the arena stays within the arena. -/
theorem Grounded.joined (h : s.Grounded) {fragment : Registry} (hfragment : fragment.Within s.arena) :
    (s.joined fragment).Within s.arena := by
  rw [Session.joined]
  split
  · exact hfragment
  · next existing hget => exact (h.registries _ existing hget).mergeWith hfragment s.dedup

/-- Notes on a merge mention entries of the registry. -/
theorem valid_of_mem_mergeNotes {a : Arena} {merged : Registry} (h : merged.Within a)
    {redefined : List (Bucket × String)} {n : Diagnostic} (hn : n ∈ mergeNotes merged redefined)
    {id : NodeId} (hid : n.node = some id) : a.Valid id := by
  obtain ⟨⟨b, name⟩, -, hnote⟩ := List.mem_filterMap.mp hn
  obtain ⟨q, hlookup, rfl⟩ := Option.map_eq_some_iff.mp hnote
  obtain rfl : q = id := Option.some.inj hid
  exact h.entries b name q hlookup

/-- The findings about replacements name nodes of the arena. -/
theorem Grounded.valid_of_mem_replacements (h : s.Grounded) {fragment : Registry}
    (hfragment : fragment.Within s.arena) {n : Diagnostic} (hn : n ∈ s.replacements fragment)
    {id : NodeId} (hid : n.node = some id) : s.arena.Valid id := by
  rw [replacements] at hn
  split at hn
  · contradiction
  · next existing hget =>
    exact valid_of_mem_mergeNotes ((h.registries _ existing hget).mergeWith hfragment s.dedup) hn hid

/-- Notes on what was filed mention the declaration filed. -/
theorem mem_of_mem_filingNotes {space : String} {filings : List (NodeId × Filing)} {n : Diagnostic}
    (hn : n ∈ filingNotes space filings) {id : NodeId} (hid : n.node = some id) :
    ∃ filing, (id, filing) ∈ filings := by
  obtain ⟨⟨q, filing⟩, hmem, hnote⟩ := List.mem_filterMap.mp hn
  have hnode : n.node = some q := by
    cases filing with
    | declared b name replaced =>
        cases replaced with
        | none => contradiction
        | some id => exact Option.some.inj hnote ▸ rfl
    | missingLocation => exact Option.some.inj hnote ▸ rfl
    | reference reference => contradiction
    | builtin => contradiction
    | ignored => contradiction
  obtain rfl : q = id := Option.some.inj (hnode.symm.trans hid)
  exact ⟨filing, hmem⟩

/-- Adding a document mentions existing nodes only. -/
theorem Grounded.addDocument (h : s.Grounded) {root : NodeId} {s' : Session}
    (hadd : s.addDocument root = .ok s') : s'.Grounded := by
  obtain ⟨fragment, filings, hfiled, rfl⟩ := addDocument_eq_ok_iff.mp hadd
  obtain ⟨d, hroot, -, rfl, rfl⟩ := filed_eq_ok hfiled
  have hfragment := Registry.within_fileLooked s.builtins hroot
  constructor
  · intro space r hr
    by_cases hspace : space =
        (Registry.fileLooked s.builtins (.ofRoot root d) (s.arena.look d.children)).targetSpace
    · rw [put, hspace, Table.get?_insert_self, Option.some.injEq] at hr
      rw [← hr]
      exact h.joined hfragment
    · rw [put, Table.get?_insert_of_ne _ _ hspace] at hr
      exact h.registries space r hr
  · intro n hn id hid
    simp only [put, Diagnostics.append, List.mem_append] at hn
    rcases hn with hn | hn | hn
    · exact h.notes n hn id hid
    · obtain ⟨filing, hmem⟩ := mem_of_mem_filingNotes hn hid
      obtain ⟨e, -, hlooked, -⟩ := Registry.exists_of_mem_filingsLooked s.builtins _ _ hmem
      exact Arena.valid_iff.mpr ⟨e, (Arena.mem_look.mp hlooked).2⟩
    · exact h.valid_of_mem_replacements hfragment hn hid

/-- A resolver leaves names of existing nodes open. -/
theorem valid_of_mem_unresolved {strict : Bool} {after : Session} {r : Resolver}
    (h : s.resolveReferences strict = (after, .ok r)) {o : OpenReference} (ho : o ∈ r.unresolved) :
    s.arena.Valid o.node := by
  have htaken := (resolveReferences_cases s strict).1 after r h
  rcases Resolver.mem_unresolved_takeAll htaken ho with hbefore | ⟨t, ht, hleft⟩
  · contradiction
  · obtain ⟨c, hc, hat⟩ := List.mem_flatMap.mp ht
    have hnode : o.node = t.site.node := by
      cases hout : t.outcome with
      | ok found => rw [Attempt.left?_ok hout] at hleft; contradiction
      | error e =>
          rw [Attempt.left?_error hout] at hleft
          exact Option.some.inj hleft ▸ rfl
    rw [hnode, node_of_mem_call_attempts hat]
    exact valid_of_mem_itinerary hc

/-- Findings about nodes of the arena leave a session grounded. -/
theorem Grounded.withNotes (h : s.Grounded) {notes : List Diagnostic}
    (hnotes : ∀ n ∈ notes, ∀ id, n.node = some id → s.arena.Valid id) :
    Grounded { s with diagnostics := s.diagnostics.append notes } where
  registries := h.registries
  notes := by
    intro n hn
    rcases List.mem_append.mp hn with hn | hn
    · exact h.notes n hn
    · exact hnotes n hn

/-- Resolving references mentions existing nodes only. -/
theorem Grounded.resolveReferences (h : s.Grounded) (strict : Bool) :
    (s.resolveReferences strict).1.Grounded := by
  have hnoted : s.noted.Grounded := by
    refine h.withNotes fun n hn id hid => ?_
    obtain ⟨p, -, rfl⟩ := List.mem_map.mp hn
    contradiction
  obtain ⟨ids, hids⟩ := exists_walkAll_fst s.noted Resolver.visit { builtins := s.builtins, strict }
  have hmarked := hnoted.marked ids
  rw [← hids] at hmarked
  have hopen : ∀ after r, s.resolveReferences strict = (after, .ok r) →
      ∀ o ∈ r.unresolved, s.arena.Valid o.node :=
    fun _ _ hresolve _ => valid_of_mem_unresolved hresolve
  simp only [noted] at hids hmarked
  simp only [Session.resolveReferences] at hopen ⊢
  cases hwalk : ({ s with diagnostics := s.diagnostics.append s.unfetchedNotes } : Session).walkAll
      Resolver.visit { builtins := s.builtins, strict } with
  | mk s' p =>
      obtain ⟨r, out⟩ := p
      rw [hwalk] at hids hmarked hopen
      cases out with
      | error e => exact hmarked
      | ok tally =>
          refine hmarked.withNotes fun n hn id hid => ?_
          obtain ⟨o, ho, rfl⟩ := List.mem_map.mp hn
          obtain rfl : o.node = id := Option.some.inj hid
          have harena : s'.arena = s.arena.markAll ids := congrArg Session.arena hids
          rw [harena, Arena.valid_markAll]
          exact hopen _ r rfl o ho

/-- Numbers of nodes that are still to come do not matter. -/
theorem Mirrors.congr (h : s.Mirrors f t) (hgrounded : s.Grounded) {g : NodeId → NodeId}
    (hfg : ∀ id, s.arena.Valid id → f id = g id) {a : Arena} (ha : s.arena.Hosts g a) :
    Mirrors g s { t with arena := a } where
  arena := ha
  registries := by
    rw [h.registries]
    exact Table.mapValues_congr _ _ fun space r hr =>
      (hgrounded.registries space r hr).renumber_congr hfg
  builtins := h.builtins
  dedup := h.dedup
  diagnostics := by
    rw [h.diagnostics]
    refine List.map_congr_left fun n hn => ?_
    rw [Diagnostic.renumber, Diagnostic.renumber]
    refine congrArg (fun node => { n with node }) ?_
    exact Option.map_congr fun id hid => hfg id (hgrounded.notes n hn id hid)

end

/-! ## failed loads in between -/

/-- The session `t` has gone through the operations of `s` with other numbers, and
through failed loads in between.  The numbers are `f` by now. -/
inductive Interposed : (NodeId → NodeId) → Session → Session → Prop
  | new (builtins : Builtins) (dedup : Bool) :
    Interposed id { builtins, dedup } { builtins, dedup }
  /-- A text is loaded into `t` alone that cannot be read. -/
  | unread {f : NodeId → NodeId} {s t : Session} (h : Interposed f s t) {text : String} {b : Arena}
    {fault : Json.Fault} (hload : t.arena.load text = (b, .error (.notJson fault))) :
    Interposed f s { t with arena := b }
  /-- A text is loaded into `t` alone that is unfit, at a time when no child in `s`
  waits for its declaration. -/
  | unfit {f : NodeId → NodeId} {s t : Session} (h : Interposed f s t) (hclosed : s.arena.Closed)
    {text : String} {b : Arena} {defect : FragmentDefect}
    (hload : t.arena.load text = (b, .error (.invalidFragment defect))) :
    Interposed (Arena.leaving f s.arena.size (b.size - t.arena.size)) s { t with arena := b }
  | edit {f : NodeId → NodeId} {s t : Session} (h : Interposed f s t) (e : Edit) :
    Interposed f { s with arena := (e.run s.arena).1 }
      { t with arena := ((e.renumber f).run t.arena).1 }
  /-- A document that cannot be added changes nothing. -/
  | add {f : NodeId → NodeId} {s t : Session} (h : Interposed f s t) (root : NodeId) :
    Interposed f ((s.addDocument root).toOption.getD s) ((t.addDocument (f root)).toOption.getD t)
  | walkAll {f : NodeId → NodeId} {s t : Session} (h : Interposed f s t) {σ τ : Type}
    {R : σ → τ → Prop} {visit : Visitor σ} {visit' : Visitor τ} (hvisit : visit.Mirrors f R visit')
    {state : σ} {state' : τ} (hstate : R state state') :
    Interposed f (s.walkAll visit state).1 (t.walkAll visit' state').1
  | walkSpace {f : NodeId → NodeId} {s t : Session} (h : Interposed f s t) (space : String)
    {σ τ : Type} {R : σ → τ → Prop} {visit : Visitor σ} {visit' : Visitor τ}
    (hvisit : visit.Mirrors f R visit') {state : σ} {state' : τ} (hstate : R state state') :
    Interposed f (s.walkSpace space visit state).1 (t.walkSpace space visit' state').1
  | resolve {f : NodeId → NodeId} {s t : Session} (h : Interposed f s t) (strict : Bool) :
    Interposed f (s.resolveReferences strict).1 (t.resolveReferences strict).1

section

variable {f : NodeId → NodeId} {s t : Session}

/-- **Failed loads leave a mirror.** -/
theorem Interposed.mirrors (h : Interposed f s t) : s.Mirrors f t ∧ s.Grounded := by
  induction h with
  | new builtins dedup => exact ⟨⟨.refl _, rfl, rfl, rfl, rfl⟩, grounded_new builtins dedup⟩
  | @unread f s t _ text b fault hload ih =>
      obtain rfl : b = t.arena := Arena.eq_of_load_notJson hload
      exact ih
  | @unfit f s t _ hclosed text b defect hload ih =>
      obtain ⟨hmirrors, hgrounded⟩ := ih
      have hannexed := Arena.annexed_load t.arena text
      rw [hload] at hannexed
      have hhosts := hmirrors.arena.leave hclosed hannexed.grown
      exact ⟨hmirrors.congr hgrounded (fun id hid => (Arena.leaving_of_valid hid _).symm) hhosts,
        hgrounded⟩
  | edit _ e ih =>
      exact ⟨ih.1.withArena (ih.1.arena.run e).1, ih.2.withArena (Arena.size_le_run _ e)⟩
  | @add f s t _ root ih =>
      obtain ⟨hmirrors, hgrounded⟩ := ih
      obtain ⟨hok, herror⟩ := hmirrors.addDocument root
      cases hadd : s.addDocument root with
      | error e =>
          rw [herror e hadd]
          exact ⟨hmirrors, hgrounded⟩
      | ok s' =>
          obtain ⟨t', hadd', hmirrors'⟩ := hok s' hadd
          rw [hadd']
          exact ⟨hmirrors', hgrounded.addDocument hadd⟩
  | @walkAll f s t _ σ τ R visit visit' hvisit state state' hstate ih =>
      obtain ⟨ids, hids⟩ := exists_walkAll_fst s visit state
      refine ⟨(ih.1.walkAll hvisit hstate).session, ?_⟩
      rw [hids]
      exact ih.2.marked ids
  | @walkSpace f s t _ space σ τ R visit visit' hvisit state state' hstate ih =>
      obtain ⟨ids, hids⟩ := exists_walkSpace_fst s space visit state
      refine ⟨(ih.1.walkSpace space hvisit hstate).session, ?_⟩
      rw [hids]
      exact ih.2.marked ids
  | resolve _ strict ih =>
      exact ⟨(ih.1.resolveReferences strict).1, ih.2.resolveReferences strict⟩

/-- **Failed loads are harmless.**  Loading a text into any arena, well or not, leaves
every declaration as it is, appends nothing if the text cannot be read, and sets apart
what it appends otherwise; no earlier declaration leads there unless it has listed a
child that did not exist.  Let failed loads be interposed in the operations of a
session, the unfit texts at times when all children exist.  Then the session mirrors
the one without them, under numbers that keep the order of its declarations: its
registries and notes are the same, and so are, up to numbers, the answers to
everything that can be done next: edits of the arena, documents, walks, which call
their visitors on the same declarations, and the resolution of references. -/
theorem failed_loads_harmless (h : Interposed f s t) :
    (∀ (a : Arena) (text : String), a.Annexed (a.load text).1 ∧
      (∀ fault, (a.load text).2 = .error (.notJson fault) → (a.load text).1 = a) ∧
      ∀ p c, a.Valid p → (a.load text).1.Edge p c → a.Edge p c ∧ (a.Closed → a.Valid c)) ∧
    s.Mirrors f t ∧
    (∀ e : Edit,
      ((e.renumber f).run t.arena).2 = translate f (Option.map f) (e.run s.arena).2) ∧
    (∀ root,
      (∀ s', s.addDocument root = .ok s' →
        ∃ t', t.addDocument (f root) = .ok t' ∧ s'.Mirrors f t') ∧
      ∀ e, s.addDocument root = .error e → t.addDocument (f root) = .error (e.renumber f)) ∧
    (∀ (σ τ : Type) (R : σ → τ → Prop) (visit : Visitor σ) (visit' : Visitor τ),
      visit.Mirrors f R visit' → ∀ state state', R state state' →
        Walked f R (s.walkAll visit state) (t.walkAll visit' state') ∧
        (∀ space,
          Walked f R (s.walkSpace space visit state) (t.walkSpace space visit' state')) ∧
        (t.walkAll visit'.logged (state', [])).2.1.2 =
          (s.walkAll visit.logged (state, [])).2.1.2.map (Call.renumber f)) ∧
    ∀ strict,
      (s.resolveReferences strict).1.Mirrors f (t.resolveReferences strict).1 ∧
      (∀ r, (s.resolveReferences strict).2 = .ok r →
        ∃ r', (t.resolveReferences strict).2 = .ok r' ∧ r.Mirrors f r') ∧
      ∀ e, (s.resolveReferences strict).2 = .error e →
        (t.resolveReferences strict).2 = .error (e.renumber f) := by
  obtain ⟨hmirrors, -⟩ := h.mirrors
  refine ⟨Arena.harmless_load, hmirrors, fun e => (hmirrors.arena.run e).2,
    hmirrors.addDocument, ?_, hmirrors.resolveReferences⟩
  intro σ τ R visit visit' hvisit state state' hstate
  refine ⟨hmirrors.walkAll hvisit hstate, fun space => hmirrors.walkSpace space hvisit hstate, ?_⟩
  exact (hmirrors.walkAll hvisit.logged ⟨hstate, rfl⟩).state.2

end

/-! A document that gets its declaration after a text has failed to load, and a
child that is listed before a text fails to load. -/

/-- The document and its declaration. -/
def undisturbedArena : Arena where
  nodes := #[
    { kind := .schema, space := "urn:a", children := [⟨1⟩] },
    { kind := .element, name := some "e", space := "urn:a" }]

def undisturbedSession : Session :=
  ((({ arena := undisturbedArena } : Session).addDocument ⟨0⟩).toOption).getD
    { arena := undisturbedArena }

/-- The document and its declaration, with the leftovers in between. -/
def disturbedArena : Arena where
  nodes := #[
    { kind := .schema, space := "urn:a", children := [⟨3⟩] },
    { kind := .schema, space := "" },
    { kind := .group, space := "" },
    { kind := .element, name := some "e", space := "urn:a" }]

def disturbedSession : Session :=
  ((({ arena := disturbedArena } : Session).addDocument ⟨0⟩).toOption).getD
    { arena := disturbedArena }

theorem interposed_disturbedSession :
    Interposed (Arena.leaving id 1 2) undisturbedSession disturbedSession := by
  have hload : (⟨#[{ kind := .schema, space := "urn:a" }]⟩ : Arena).load danglingText =
      (⟨#[{ kind := .schema, space := "urn:a" }, { kind := .schema, space := "" },
        { kind := .group, space := "" }]⟩, .error (.invalidFragment (.unknownAnchor "x"))) := by
    decide +kernel
  have hdocument := (Interposed.new .xsd true).edit (.alloc { kind := .schema, space := "urn:a" })
  have hfailed := hdocument.unfit (by decide +kernel) hload
  have hchild := hfailed.edit
    (.allocChild ⟨0⟩ { kind := .element, name := some "e", space := "urn:a" })
  exact hchild.add ⟨0⟩

/-- The registries are the same, but for the number of the declaration. -/
theorem failed_loads_harmless_between :
    Interposed (Arena.leaving id 1 2) undisturbedSession disturbedSession ∧
      ∃ r r', undisturbedSession.registries.get? "urn:a" = some r ∧
        disturbedSession.registries.get? "urn:a" = some r' ∧
        r.lookup .elements "e" = some ⟨1⟩ ∧ r'.lookup .elements "e" = some ⟨3⟩ := by
  have hinterposed := interposed_disturbedSession
  obtain ⟨-, hmirrors, -⟩ := failed_loads_harmless hinterposed
  obtain ⟨r, hr, hfiled⟩ : ∃ r, undisturbedSession.registries.get? "urn:a" = some r ∧
      r.lookup .elements "e" = some ⟨1⟩ := ⟨_, rfl, rfl⟩
  refine ⟨hinterposed, r, r.renumber (Arena.leaving id 1 2), hr, ?_, hfiled, ?_⟩
  · rw [hmirrors.registries, Table.get?_mapValues, hr, Option.map_some]
  · rw [Registry.lookup_renumber, hfiled]
    rfl

/-- A child that was listed before it existed is there after the failed load, and the
document, which could not be added before, can be added then. -/
theorem failed_load_adopted :
    let a : Arena := ⟨#[{ kind := .schema, space := "", children := [⟨1⟩] }]⟩
    ∃ b t, a.load danglingText = (b, .error (.invalidFragment (.unknownAnchor "x"))) ∧
      a.Valid ⟨0⟩ ∧ ¬ a.Valid ⟨1⟩ ∧ b.Valid ⟨1⟩ ∧ b.Edge ⟨0⟩ ⟨1⟩ ∧
      ({ arena := a } : Session).addDocument ⟨0⟩ = .error (.unknownNode ⟨1⟩) ∧
      ({ arena := b } : Session).addDocument ⟨0⟩ = .ok t := by
  have hload : (⟨#[{ kind := .schema, space := "", children := [⟨1⟩] }]⟩ : Arena).load
      danglingText =
      (⟨#[{ kind := .schema, space := "", children := [⟨1⟩] }, { kind := .schema, space := "" },
        { kind := .group, space := "" }]⟩, .error (.invalidFragment (.unknownAnchor "x"))) := by
    decide +kernel
  exact ⟨_, _, hload, by decide, by decide, by decide, ⟨_, rfl, List.mem_singleton_self _⟩, rfl, rfl⟩

end Session

end SchemaCatalog
