import SchemaCatalog.Proofs.Session.LastWins

/-!
# SchemaCatalog.Proofs.Session.Interleaving

The order in which documents of different namespaces are added does not
matter.  What a session shows of one namespace is the registry of that
namespace and the notes on it (`AgreeOn`).  Adding a document of the namespace
looks at nothing else (`AgreeOn.put`), and adding a document of another one
leaves it as it is (`agreeOn_put`), so after any number of documents each
namespace shows what its own documents, added by themselves, would have made
of it (`agreeOn_addEach`).

Two orders that differ only between namespaces therefore end in sessions that
are *alike*, which is to say the same but for the order of notes on different
namespaces.  Notes are never read again, so walks and resolutions of such
sessions are the same too (`addEach_interleaved`).
-/

namespace SchemaCatalog

namespace Diagnostics

/-- The notes on one namespace. -/
def inSpace (ds : Diagnostics) (space : String) : List Diagnostic :=
  ds.items.filter fun d => d.space = space

/-- The findings of a namespace are appended among themselves. -/
theorem inSpace_append (ds : Diagnostics) (more : List Diagnostic) (space : String) :
    (ds.append more).inSpace space =
      ds.inSpace space ++ more.filter fun d => d.space = space :=
  List.filter_append ds.items more

/-- Findings of another namespace do not count. -/
theorem inSpace_append_of_ne (ds : Diagnostics) {more : List Diagnostic} {space space' : String}
    (hmore : ∀ d ∈ more, d.space = space') (hne : space' ≠ space) :
    (ds.append more).inSpace space = ds.inSpace space := by
  have hnone : (more.filter fun d => d.space = space) = [] := by
    rw [List.filter_eq_nil_iff]
    intro d hd
    simpa [hmore d hd] using hne
  rw [inSpace_append, hnone, List.append_nil]

end Diagnostics

namespace Session

/-- Adds documents in order. One that cannot be added is passed over. -/
def addEach (s : Session) : List NodeId → Session
  | [] => s
  | root :: rest => ((s.addDocument root).toOption.getD s).addEach rest

section

variable {s t : Session} {space : String} {root : NodeId}

/-- A document that can be filed is put before the rest are added. -/
theorem addEach_cons_ok {fragment : Registry} {filings : List (NodeId × Filing)}
    (h : filed s.builtins s.arena root = .ok (fragment, filings)) (rest : List NodeId) :
    s.addEach (root :: rest) = (s.put fragment filings).addEach rest := by
  rw [addEach, addDocument_eq, h]
  rfl

/-- A document that cannot be filed is passed over. -/
theorem addEach_cons_error {e : Error} (h : filed s.builtins s.arena root = .error e)
    (rest : List NodeId) : s.addEach (root :: rest) = s.addEach rest := by
  rw [addEach, addDocument_eq, h]
  rfl

/-! ## notes on a namespace -/

/-- The findings of a filing are of its namespace. -/
theorem space_of_mem_filingNotes {filings : List (NodeId × Filing)} {n : Diagnostic}
    (h : n ∈ filingNotes space filings) : n.space = space := by
  obtain ⟨⟨node, filing⟩, -, hn⟩ := List.mem_filterMap.mp h
  cases filing with
  | declared b name replaced =>
      cases replaced with
      | none => contradiction
      | some id => exact Option.some.inj hn ▸ rfl
  | missingLocation => exact Option.some.inj hn ▸ rfl
  | reference reference => contradiction
  | builtin => contradiction
  | ignored => contradiction

/-- A merge makes notes on the namespace of what is merged, if any: registries
of different namespaces are not merged. -/
theorem space_of_mem_replacements {fragment : Registry} {n : Diagnostic}
    (h : n ∈ s.replacements fragment) : n.space = fragment.targetSpace := by
  cases hget : s.registries.get? fragment.targetSpace with
  | none => simp [replacements, hget] at h
  | some existing =>
      by_cases hspace : existing.targetSpace = fragment.targetSpace
      · simp only [replacements, hget, Registry.mergeWith, if_pos hspace] at h
        obtain ⟨⟨b, name⟩, -, hn⟩ := List.mem_filterMap.mp h
        obtain ⟨id, -, rfl⟩ := Option.map_eq_some_iff.mp hn
        exact hspace
      · simp [replacements, hget, Registry.mergeWith, if_neg hspace, mergeNotes] at h

/-! ## one namespace -/

/-- Two sessions of one arena show the same of a namespace. -/
structure AgreeOn (space : String) (s t : Session) : Prop where
  arena : s.arena = t.arena
  builtins : s.builtins = t.builtins
  dedup : s.dedup = t.dedup
  registry : s.registries.get? space = t.registries.get? space
  notes : s.diagnostics.inSpace space = t.diagnostics.inSpace space

theorem AgreeOn.refl (space : String) (s : Session) : AgreeOn space s s := ⟨rfl, rfl, rfl, rfl, rfl⟩

theorem AgreeOn.symm (h : AgreeOn space s t) : AgreeOn space t s :=
  ⟨h.arena.symm, h.builtins.symm, h.dedup.symm, h.registry.symm, h.notes.symm⟩

/-- Agreement on a namespace is transitive. -/
theorem AgreeOn.trans {u : Session} (h : AgreeOn space s t) (h' : AgreeOn space t u) :
    AgreeOn space s u :=
  ⟨h.arena.trans h'.arena, h.builtins.trans h'.builtins, h.dedup.trans h'.dedup,
    h.registry.trans h'.registry, h.notes.trans h'.notes⟩

/-- A document of another namespace changes nothing that is shown of this one. -/
theorem agreeOn_put {fragment : Registry} (hne : fragment.targetSpace ≠ space)
    (filings : List (NodeId × Filing)) : AgreeOn space (s.put fragment filings) s where
  arena := rfl
  builtins := rfl
  dedup := rfl
  registry := Table.get?_insert_of_ne _ _ hne.symm
  notes := by
    refine Diagnostics.inSpace_append_of_ne _ ?_ hne
    intro n hn
    obtain hn | hn := List.mem_append.mp hn
    · exact space_of_mem_filingNotes hn
    · exact space_of_mem_replacements hn

/-- A document of this namespace looks at nothing but what is shown of it. -/
theorem AgreeOn.put {fragment : Registry} (h : AgreeOn fragment.targetSpace s t)
    (filings : List (NodeId × Filing)) :
    AgreeOn fragment.targetSpace (s.put fragment filings) (t.put fragment filings) where
  arena := h.arena
  builtins := h.builtins
  dedup := h.dedup
  registry := by
    have hjoined : s.joined fragment = t.joined fragment := by
      simp only [joined, h.registry, h.dedup]
    simp only [Session.put, Table.get?_insert_self, hjoined]
  notes := by
    have hreplacements : s.replacements fragment = t.replacements fragment := by
      simp only [replacements, h.registry, h.dedup]
    simp only [Session.put, Diagnostics.inSpace_append, h.notes, hreplacements]

/-! ## all documents -/

/-- A document counts for its own namespace only. -/
theorem documents_cons {a : Arena} {d : Declaration} (hroot : a.get? root = some d)
    (space : String) (rest : List NodeId) :
    documents a space (root :: rest) =
      if Registry.targetSpaceOf d = space then (root, d) :: documents a space rest
      else documents a space rest := by
  simp only [documents, Arena.look_cons_some hroot, List.filter_cons, decide_eq_true_eq]
  rfl

theorem documents_cons_none {a : Arena} (hroot : a.get? root = none) (space : String)
    (rest : List NodeId) : documents a space (root :: rest) = documents a space rest := by
  simp [documents, Arena.look, hroot]

/-- **Each namespace by itself**: it shows what its own documents alone would
have made of it. -/
theorem agreeOn_addEach (h : AgreeOn space s t) (roots : List NodeId) :
    AgreeOn space (s.addEach roots)
      (t.addEach ((documents s.arena space roots).map (·.1))) := by
  induction roots generalizing s t with
  | nil => exact h
  | cons root rest ih =>
      cases hfiled : filed s.builtins s.arena root with
      | error e =>
          have hfiled' : filed t.builtins t.arena root = .error e := by
            rw [← h.builtins, ← h.arena, hfiled]
          rw [addEach_cons_error hfiled]
          cases hroot : s.arena.get? root with
          | none =>
              rw [documents_cons_none hroot]
              exact ih h
          | some d =>
              rw [documents_cons hroot]
              split
              · rw [List.map_cons, addEach_cons_error hfiled']
                exact ih h
              · exact ih h
      | ok p =>
          obtain ⟨fragment, filings⟩ := p
          have hfiled' : filed t.builtins t.arena root = .ok (fragment, filings) := by
            rw [← h.builtins, ← h.arena, hfiled]
          obtain ⟨d, hroot, -, hfragment, -⟩ := filed_eq_ok hfiled
          have hspace : fragment.targetSpace = Registry.targetSpaceOf d := by
            rw [hfragment]
            exact targetSpace_fragment s root d
          rw [addEach_cons_ok hfiled, documents_cons hroot, ← hspace]
          split
          · next hsame =>
            subst hsame
            rw [List.map_cons, addEach_cons_ok hfiled']
            exact ih (h.put filings)
          · next hother => exact ih ((agreeOn_put hother filings).trans h)

/-! ## sessions that are alike -/

/-- Two sessions are the same but for the order of notes on different
namespaces. -/
structure Alike (s t : Session) : Prop where
  arena : s.arena = t.arena
  registries : s.registries = t.registries
  builtins : s.builtins = t.builtins
  dedup : s.dedup = t.dedup
  notes : ∀ space, s.diagnostics.inSpace space = t.diagnostics.inSpace space

/-- Sessions that agree on each namespace are alike. -/
theorem alike_of_agreeOn (h : ∀ space, AgreeOn space s t) : s.Alike t where
  arena := (h "").arena
  registries := Table.ext_get? fun space => (h space).registry
  builtins := (h "").builtins
  dedup := (h "").dedup
  notes := fun space => (h space).notes

/-- Sessions that are alike differ in the order of findings only. -/
theorem Alike.eq_withNotes (h : s.Alike t) : t = { s with diagnostics := t.diagnostics } := by
  rw [h.arena, h.registries, h.builtins, h.dedup]

/-- Sessions that are alike are walked alike. -/
theorem Alike.walkAll (h : s.Alike t) {σ : Type} (visit : Visitor σ) (state : σ) :
    (s.walkAll visit state).2 = (t.walkAll visit state).2 ∧
      (s.walkAll visit state).1.Alike (t.walkAll visit state).1 := by
  have hwalk := walkAll_withNotes s t.diagnostics visit state
  rw [← h.eq_withNotes] at hwalk
  obtain ⟨ids, hids⟩ := exists_walkAll_fst s visit state
  rw [hwalk, hids]
  exact ⟨rfl, rfl, rfl, rfl, rfl, h.notes⟩

/-- Resolving references adds notes that have nothing to do with those that are
there, and reads none. -/
theorem resolveReferences_withNotes (s : Session) (strict : Bool) :
    ∃ more, ∀ notes : Diagnostics,
      ({ s with diagnostics := notes } : Session).resolveReferences strict =
        ({ (s.resolveReferences strict).1 with diagnostics := notes.append more },
          (s.resolveReferences strict).2) := by
  cases hwalk : s.walkAll Resolver.visit { builtins := s.builtins, strict } with
  | mk s' p =>
      obtain ⟨r, outcome⟩ := p
      have hnoted : ∀ notes : Diagnostics,
          ({ s with diagnostics := notes } : Session).walkAll Resolver.visit
            { builtins := s.builtins, strict } =
          ({ s' with diagnostics := notes }, r, outcome) := by
        intro notes
        rw [walkAll_withNotes, hwalk]
      cases outcome with
      | error e =>
          refine ⟨s.unfetchedNotes, fun notes => ?_⟩
          simp only [resolveReferences, hnoted]
          rfl
      | ok tally =>
          refine ⟨s.unfetchedNotes ++ r.unresolved.map (openNote s'.arena), fun notes => ?_⟩
          simp only [resolveReferences, hnoted, Diagnostics.append, List.append_assoc]
          rfl

/-- References of sessions that are alike are resolved alike. -/
theorem Alike.resolveReferences (h : s.Alike t) (strict : Bool) :
    (s.resolveReferences strict).2 = (t.resolveReferences strict).2 ∧
      (s.resolveReferences strict).1.Alike (t.resolveReferences strict).1 := by
  obtain ⟨more, hmore⟩ := resolveReferences_withNotes s strict
  have hs := hmore s.diagnostics
  have ht := hmore t.diagnostics
  rw [← h.eq_withNotes] at ht
  have hs' : s.resolveReferences strict =
      ({ (s.resolveReferences strict).1 with diagnostics := s.diagnostics.append more },
        (s.resolveReferences strict).2) := hs
  rw [ht]
  refine ⟨rfl, rfl, rfl, rfl, rfl, fun space => ?_⟩
  rw [hs', Diagnostics.inSpace_append, Diagnostics.inSpace_append, h.notes]

end

/-- Adding documents up to the first that fails is adding each of them, if none
fails. -/
theorem addDocuments_eq_ok_iff {s s' : Session} {roots : List NodeId} :
    s.addDocuments roots = .ok s' ↔
      (∀ root ∈ roots, ∃ p, filed s.builtins s.arena root = .ok p) ∧ s' = s.addEach roots := by
  induction roots generalizing s with
  | nil => simp [addDocuments, addEach, eq_comm]
  | cons root rest ih =>
      rw [addDocuments, addDocument_eq]
      cases hfiled : filed s.builtins s.arena root with
      | error e => simp [Except.map, hfiled]
      | ok p =>
          have hrest := ih (s := s.put p.1 p.2)
          simp only [Except.map, hrest, addEach_cons_ok hfiled, List.forall_mem_cons, hfiled]
          simp [put]

/-- **The order of namespaces does not matter.**  If two orders of the same
documents agree for each namespace, then the sessions are alike, and so is all
that comes of walking them and of resolving their references. -/
theorem addEach_interleaved (s : Session) {xs ys : List NodeId} (hperm : xs.Perm ys)
    (horder : ∀ space, documents s.arena space xs = documents s.arena space ys) :
    (s.addEach xs).Alike (s.addEach ys) ∧
    (s.addEach xs).summaries = (s.addEach ys).summaries ∧
    (∀ (σ : Type) (visit : Visitor σ) (state : σ),
      ((s.addEach xs).walkAll visit.logged (state, [])).2 =
        ((s.addEach ys).walkAll visit.logged (state, [])).2 ∧
      ((s.addEach xs).walkAll visit state).2 = ((s.addEach ys).walkAll visit state).2 ∧
      ((s.addEach xs).walkAll visit state).1.Alike ((s.addEach ys).walkAll visit state).1) ∧
    (∀ strict : Bool,
      ((s.addEach xs).resolveReferences strict).2 = ((s.addEach ys).resolveReferences strict).2 ∧
      ((s.addEach xs).resolveReferences strict).1.Alike
        ((s.addEach ys).resolveReferences strict).1) ∧
    ∀ s', s.addDocuments xs = .ok s' →
      s' = s.addEach xs ∧ s.addDocuments ys = .ok (s.addEach ys) := by
  have halike : (s.addEach xs).Alike (s.addEach ys) := by
    refine alike_of_agreeOn fun space => ?_
    have hx := agreeOn_addEach (.refl space s) xs
    have hy := agreeOn_addEach (.refl space s) ys
    rw [horder] at hx
    exact hx.trans hy.symm
  refine ⟨halike, ?_, ?_, fun strict => halike.resolveReferences strict, ?_⟩
  · rw [summaries, summaries, halike.registries]
  · intro σ visit state
    exact ⟨(halike.walkAll visit.logged (state, [])).1, halike.walkAll visit state⟩
  · intro s' h
    obtain ⟨hfiled, hs'⟩ := addDocuments_eq_ok_iff.mp h
    refine ⟨hs', addDocuments_eq_ok_iff.mpr ⟨fun root hroot => ?_, rfl⟩⟩
    exact hfiled root (hperm.mem_iff.mpr hroot)

/-! Two documents of one namespace, of which the second redefines a name, and a
document of another one with a directive that names no location. -/

/-- The session before the documents are added. -/
def mixedSession : Session where
  arena := { nodes := #[
    { kind := .schema, space := "urn:a", children := [⟨3⟩] },
    { kind := .schema, space := "urn:a", children := [⟨4⟩] },
    { kind := .schema, space := "urn:b", children := [⟨5⟩] },
    { kind := .element, name := some "x", space := "urn:a" },
    { kind := .element, name := some "x", space := "urn:a" },
    { kind := .inclusion, space := "urn:b" }] }

/-- The notes come in another order, but not those on one namespace. -/
theorem addEach_interleaved_mixed :
    [(⟨0⟩ : NodeId), ⟨1⟩, ⟨2⟩].Perm [⟨2⟩, ⟨0⟩, ⟨1⟩] ∧
      (∀ space, documents mixedSession.arena space [⟨0⟩, ⟨1⟩, ⟨2⟩] =
        documents mixedSession.arena space [⟨2⟩, ⟨0⟩, ⟨1⟩]) ∧
      (mixedSession.addEach [⟨0⟩, ⟨1⟩, ⟨2⟩]).diagnostics ≠
        (mixedSession.addEach [⟨2⟩, ⟨0⟩, ⟨1⟩]).diagnostics ∧
      (mixedSession.addEach [⟨0⟩, ⟨1⟩, ⟨2⟩]).Alike (mixedSession.addEach [⟨2⟩, ⟨0⟩, ⟨1⟩]) := by
  have hperm : [(⟨0⟩ : NodeId), ⟨1⟩, ⟨2⟩].Perm [⟨2⟩, ⟨0⟩, ⟨1⟩] := by decide
  have horder : ∀ space, documents mixedSession.arena space [⟨0⟩, ⟨1⟩, ⟨2⟩] =
      documents mixedSession.arena space [⟨2⟩, ⟨0⟩, ⟨1⟩] := by
    intro space
    by_cases hspace : space = "urn:b"
    · subst hspace
      rfl
    · -- only the first two documents can be of this namespace
      have hb : ∀ rest, documents mixedSession.arena space (⟨2⟩ :: rest) =
          documents mixedSession.arena space rest := by
        intro rest
        rw [documents_cons rfl, if_neg]
        exact fun h => hspace h.symm
      have happend : documents mixedSession.arena space [⟨0⟩, ⟨1⟩, ⟨2⟩] =
          documents mixedSession.arena space [⟨0⟩, ⟨1⟩] ++
            documents mixedSession.arena space [⟨2⟩] := by
        simp only [documents, ← List.filter_append, ← Arena.look_append]
        rfl
      rw [happend, hb, hb]
      exact List.append_nil _
  refine ⟨hperm, horder, ?_, (addEach_interleaved mixedSession hperm horder).1⟩
  decide +kernel

end Session

end SchemaCatalog
