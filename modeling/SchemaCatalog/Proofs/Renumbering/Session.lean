import SchemaCatalog.Proofs.Renumbering.Loading
import SchemaCatalog.Proofs.Renumbering.Reference

/-!
# SchemaCatalog.Proofs.Renumbering.Session

Sessions that differ in numbers only.  A session *mirrors* another one if its arena
hosts the other one's and its registries and notes are the same, up to numbers
(`Session.Mirrors`).  Whatever is done to both alike, they go on to mirror each
other: edits of the arena, documents that are added, well or not
(`Mirrors.addDocument`), walks (`Mirrors.walkAll`, `Mirrors.walkSpace`) and the
resolution of references (`Mirrors.resolveReferences`), and the answers are the same.
-/

namespace SchemaCatalog

def Diagnostic.renumber (f : NodeId → NodeId) (n : Diagnostic) : Diagnostic :=
  { n with node := n.node.map f }

namespace Session

/-- The session `t` is `s` with other numbers; there may be more declarations in its
arena. -/
structure Mirrors (f : NodeId → NodeId) (s t : Session) : Prop where
  arena : s.arena.Hosts f t.arena
  registries : t.registries = s.registries.mapValues (Registry.renumber f)
  builtins : t.builtins = s.builtins
  dedup : t.dedup = s.dedup
  diagnostics : t.diagnostics.items = s.diagnostics.items.map (Diagnostic.renumber f)

section

variable {f : NodeId → NodeId} {s t : Session}

/-- Sessions stay mirrored as one arena goes on hosting the other. -/
theorem Mirrors.withArena (h : s.Mirrors f t) {a b : Arena} (hab : a.Hosts f b) :
    Mirrors f { s with arena := a } { t with arena := b } where
  arena := hab
  registries := h.registries
  builtins := h.builtins
  dedup := h.dedup
  diagnostics := h.diagnostics

/-- Sessions stay mirrored as the same findings are added to both. -/
theorem Mirrors.withNotes (h : s.Mirrors f t) {notes notes' : List Diagnostic}
    (hnotes : notes' = notes.map (Diagnostic.renumber f)) :
    Mirrors f { s with diagnostics := s.diagnostics.append notes }
      { t with diagnostics := t.diagnostics.append notes' } where
  arena := h.arena
  registries := h.registries
  builtins := h.builtins
  dedup := h.dedup
  diagnostics := by
    simp only [Diagnostics.append, h.diagnostics, hnotes, List.map_append]

/-! ## adding documents -/

/-- Filing a document commutes with the renumbering. -/
theorem filed_renumber {a b : Arena} (h : a.Hosts f b) (builtins : Builtins) (root : NodeId) :
    filed builtins b (f root) =
      translate f (Prod.map (Registry.renumber f) (List.map (Prod.map f (Filing.renumber f))))
        (filed builtins a root) := by
  simp only [filed, h.get?]
  cases a.get? root with
  | none => rfl
  | some d =>
      have hfile := Registry.fileAll_renumber h builtins (.ofRoot root d) d.children
      rw [← Registry.ofRoot_renumber] at hfile
      simp only [Option.map_some]
      rw [Declaration.renumber] at hfile ⊢
      simp only [hfile]
      cases Registry.fileAll builtins a (.ofRoot root d) d.children with
      | mk fragment outcome =>
          cases outcome with
          | error e => rfl
          | ok filings => rfl

/-- The findings of a filing commute with the renumbering. -/
theorem filingNotes_renumber (f : NodeId → NodeId) (space : String)
    (filings : List (NodeId × Filing)) :
    filingNotes space (filings.map (Prod.map f (Filing.renumber f))) =
      (filingNotes space filings).map (Diagnostic.renumber f) := by
  rw [filingNotes, filingNotes, List.filterMap_map, List.map_filterMap]
  refine List.filterMap_congr fun p _ => ?_
  obtain ⟨node, filing⟩ := p
  cases filing with
  | declared b name replaced =>
      cases replaced with
      | none => rfl
      | some id => rfl
  | reference e => rfl
  | missingLocation => rfl
  | builtin => rfl
  | ignored => rfl

/-- The findings of a merge commute with the renumbering. -/
theorem mergeNotes_renumber (f : NodeId → NodeId) (merged : Registry)
    (redefined : List (Bucket × String)) :
    mergeNotes (merged.renumber f) redefined =
      (mergeNotes merged redefined).map (Diagnostic.renumber f) := by
  rw [mergeNotes, mergeNotes, List.map_filterMap]
  refine List.filterMap_congr fun p _ => ?_
  simp only [Registry.lookup_renumber, Option.map_map]
  rfl

/-- Joining a fragment commutes with the renumbering. -/
theorem Mirrors.joined (h : s.Mirrors f t) (fragment : Registry) :
    t.joined (fragment.renumber f) = (s.joined fragment).renumber f := by
  have hspace : (fragment.renumber f).targetSpace = fragment.targetSpace := rfl
  simp only [Session.joined, hspace, h.registries, Table.get?_mapValues, h.dedup]
  cases s.registries.get? fragment.targetSpace with
  | none => rfl
  | some existing => simp only [Option.map_some, Registry.mergeWith_renumber h.arena.injective]

/-- The replacements of a fragment commute with the renumbering. -/
theorem Mirrors.replacements (h : s.Mirrors f t) (fragment : Registry) :
    t.replacements (fragment.renumber f) =
      (s.replacements fragment).map (Diagnostic.renumber f) := by
  have hspace : (fragment.renumber f).targetSpace = fragment.targetSpace := rfl
  simp only [Session.replacements, hspace, h.registries, Table.get?_mapValues, h.dedup]
  cases s.registries.get? fragment.targetSpace with
  | none => rfl
  | some existing =>
      simp only [Option.map_some, Registry.mergeWith_renumber h.arena.injective,
        mergeNotes_renumber]

/-- Putting a fragment into both keeps the sessions mirrored. -/
theorem Mirrors.put (h : s.Mirrors f t) (fragment : Registry) (filings : List (NodeId × Filing)) :
    Mirrors f (s.put fragment filings)
      (t.put (fragment.renumber f) (filings.map (Prod.map f (Filing.renumber f)))) where
  arena := h.arena
  registries := by
    simp only [Session.put, h.joined, h.registries]
    exact Table.insert_mapValues _ s.registries fragment.targetSpace _
  builtins := h.builtins
  dedup := h.dedup
  diagnostics := by
    simp only [Session.put, Diagnostics.append, h.diagnostics, h.replacements, List.map_append,
      ← filingNotes_renumber]
    rfl

/-- **A document** is added to both, or to none of them for the same reason. -/
theorem Mirrors.addDocument (h : s.Mirrors f t) (root : NodeId) :
    (∀ s', s.addDocument root = .ok s' →
      ∃ t', t.addDocument (f root) = .ok t' ∧ s'.Mirrors f t') ∧
    ∀ e, s.addDocument root = .error e → t.addDocument (f root) = .error (e.renumber f) := by
  have hfiled := filed_renumber h.arena s.builtins root
  rw [addDocument_eq, addDocument_eq, h.builtins, hfiled]
  cases filed s.builtins s.arena root with
  | error e =>
      refine ⟨fun s' hs' => by contradiction, fun e' he' => ?_⟩
      obtain rfl : e = e' := Except.error.inj he'
      rfl
  | ok p =>
      refine ⟨fun s' hs' => ?_, fun e he => by contradiction⟩
      obtain rfl : s.put p.1 p.2 = s' := Except.ok.inj hs'
      exact ⟨_, rfl, h.put p.1 p.2⟩

/-! ## walks -/

/-- What comes of the same walk in both: the sessions go on to mirror each other,
states of visitors to be related by `R`, and the outcome is the same, up to numbers. -/
structure Walked {σ τ α : Type} (f : NodeId → NodeId) (R : σ → τ → Prop)
    (x : Session × σ × Except Error α) (y : Session × τ × Except Error α) : Prop where
  session : x.1.Mirrors f y.1
  state : R x.2.1 y.2.1
  outcome : y.2.2 = translate f id x.2.2

section

variable {σ τ : Type} {R : σ → τ → Prop} {visit : Visitor σ} {visit' : Visitor τ} {state : σ}
  {state' : τ}

/-- Mirrored walks have mirrored outcomes. -/
theorem Mirrors.outcome (h : s.Mirrors f t) {p : Walk σ × Option Error} {q : Walk τ × Option Error}
    (hwalk : p.1.Mirrors f R q.1) (hfault : q.2 = p.2.map (Error.renumber f)) :
    Walked f R (s.outcome p) (t.outcome q) where
  session := h.withArena hwalk.arena
  state := hwalk.state
  outcome := by
    simp only [Session.outcome, hfault, hwalk.tally]
    cases p.2 with
    | none => rfl
    | some e => rfl

/-- **A walk** goes the same way in both. -/
theorem Mirrors.walkAll (h : s.Mirrors f t) (hvisit : visit.Mirrors f R visit')
    (hstate : R state state') : Walked f R (s.walkAll visit state) (t.walkAll visit' state') := by
  have hroute : t.itinerary = s.itinerary.map (Walk.Event.renumber f) := by
    rw [itinerary, itinerary, h.registries, Table.values_mapValues, Walk.enterAll_renumber,
      Walk.route_renumber h.arena]
  have hstart : Walk.Mirrors f R { arena := s.arena, state } { arena := t.arena, state := state' } :=
    ⟨h.arena, hstate, rfl⟩
  obtain ⟨hwalk, hfault⟩ := Walk.follow_renumber hvisit s.registries hstart s.itinerary
  rw [walkAll_eq_follow, walkAll_eq_follow, hroute, h.registries]
  exact h.outcome hwalk hfault

/-- So does a walk of one namespace. -/
theorem Mirrors.walkSpace (h : s.Mirrors f t) (space : String) (hvisit : visit.Mirrors f R visit')
    (hstate : R state state') :
    Walked f R (s.walkSpace space visit state) (t.walkSpace space visit' state') := by
  have hget' : t.registries.get? space = (s.registries.get? space).map (Registry.renumber f) := by
    rw [h.registries, Table.get?_mapValues]
  cases hget : s.registries.get? space with
  | none =>
      rw [hget] at hget'
      simp only [Session.walkSpace, hget, hget', Option.map_none]
      exact ⟨h, hstate, rfl⟩
  | some r =>
      rw [hget] at hget'
      have hroute : Walk.route t.arena (Walk.enterAll [r.renumber f]) =
          (Walk.route s.arena (Walk.enterAll [r])).map (Walk.Event.renumber f) := by
        rw [← Walk.route_renumber h.arena, ← Walk.enterAll_renumber]
        rfl
      have hstart : Walk.Mirrors f R { arena := s.arena, state }
          { arena := t.arena, state := state' } := ⟨h.arena, hstate, rfl⟩
      obtain ⟨hwalk, hfault⟩ := Walk.follow_renumber hvisit s.registries hstart
        (Walk.route s.arena (Walk.enterAll [r]))
      rw [walkSpace_eq_follow hget, walkSpace_eq_follow hget', hroute, h.registries]
      obtain ⟨hsession, hfinal, hout⟩ := h.outcome hwalk hfault
      refine ⟨hsession, hfinal, ?_⟩
      simp only [hout]
      cases (s.outcome _).2.2 with
      | error e => rfl
      | ok tally => rfl

end

/-! ## resolution -/

/-- The findings about unfetched namespaces commute with the renumbering. -/
theorem Mirrors.unfetchedNotes (h : s.Mirrors f t) :
    t.unfetchedNotes = s.unfetchedNotes.map (Diagnostic.renumber f) := by
  have hcontains : t.registries.contains = s.registries.contains := by
    rw [h.registries]
    exact funext (Table.contains_mapValues _ s.registries)
  have hunfetched : t.unfetched = s.unfetched := by
    rw [unfetched, unfetched, hcontains, h.registries, Table.values_mapValues, List.flatMap_map]
    rfl
  rw [Session.unfetchedNotes, Session.unfetchedNotes, hunfetched, List.map_map]
  rfl

/-- The finding about an open reference commutes with the renumbering. -/
theorem openNote_renumber {a b : Arena} (h : a.Hosts f b) {o p : OpenReference}
    (hop : o.Mirrors f p) : openNote b p = (openNote a o).renumber f := by
  rw [openNote, openNote, hop.node, hop.attr, hop.name, h.get?, Option.map_map]
  rfl

/-- Names left open are noted in the same order. -/
theorem openNotes_renumber {a b : Arena} (h : a.Hosts f b) {os ps : List OpenReference}
    (hops : List.Forall₂ (OpenReference.Mirrors f) os ps) :
    ps.map (openNote b) = (os.map (openNote a)).map (Diagnostic.renumber f) := by
  induction hops with
  | nil => rfl
  | cons hop _ ih => rw [List.map_cons, List.map_cons, List.map_cons, ih, openNote_renumber h hop]

/-- **References** are resolved alike in both. -/
theorem Mirrors.resolveReferences (h : s.Mirrors f t) (strict : Bool) :
    (s.resolveReferences strict).1.Mirrors f (t.resolveReferences strict).1 ∧
      (∀ r, (s.resolveReferences strict).2 = .ok r →
        ∃ r', (t.resolveReferences strict).2 = .ok r' ∧ r.Mirrors f r') ∧
      ∀ e, (s.resolveReferences strict).2 = .error e →
        (t.resolveReferences strict).2 = .error (e.renumber f) := by
  have hnoted : s.noted.Mirrors f t.noted := h.withNotes h.unfetchedNotes
  have hstart : Resolver.Mirrors f { builtins := s.builtins, strict }
      { builtins := t.builtins, strict } := h.builtins ▸ Resolver.mirrors_new f s.builtins strict
  obtain ⟨hsession, hresolver, hout⟩ := hnoted.walkAll (Resolver.visit_mirrors f) hstart
  simp only [noted] at hsession hresolver hout
  simp only [Session.resolveReferences]
  cases hwalk : ({ s with diagnostics := s.diagnostics.append s.unfetchedNotes } : Session).walkAll
      Resolver.visit { builtins := s.builtins, strict } with
  | mk s' p =>
      obtain ⟨r, out⟩ := p
      cases hwalk' : ({ t with diagnostics := t.diagnostics.append t.unfetchedNotes } : Session).walkAll
          Resolver.visit { builtins := t.builtins, strict } with
      | mk t' p' =>
          obtain ⟨r', out'⟩ := p'
          rw [hwalk, hwalk'] at hsession hresolver hout
          obtain rfl : out' = translate f id out := hout
          cases out with
          | error e =>
              refine ⟨hsession, fun r hr => by contradiction, fun e' he' => ?_⟩
              obtain rfl : e = e' := Except.error.inj he'
              rfl
          | ok tally =>
              have hnotes := openNotes_renumber hsession.arena hresolver.unresolved
              refine ⟨hsession.withNotes hnotes, fun r₁ hr₁ => ?_, fun e he => by contradiction⟩
              obtain rfl : r = r₁ := Except.ok.inj hr₁
              exact ⟨r', rfl, hresolver⟩

end

end Session

end SchemaCatalog
