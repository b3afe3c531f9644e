import SchemaCatalog.Proofs.Registry.Filing
import SchemaCatalog.Proofs.Registry.Merge
import SchemaCatalog.Session

/-!
# SchemaCatalog.Proofs.Session.Adding

What adding a document does to a session.  There are two steps to it
(`addDocument_eq`): the document is *filed*, for which nothing but the arena
and the built-in names are looked at (`filed`), and what comes of it is *put*
into the registry of its namespace, for which no other registry is looked at
(`put`).

`Addition` says in one statement what there is to be known afterwards: the
document and its children exist, the registry of its namespace becomes the one
that was there with the document's own registry (`fragment`) put on top, and
the rest of the session stays as it is, notes apart.
-/

namespace SchemaCatalog

namespace Session

def fragment (s : Session) (root : NodeId) (d : Declaration) : Registry :=
  Registry.fileLooked s.builtins (.ofRoot root d) (s.arena.look d.children)

/-- The registry that a fragment leaves in its namespace. -/
def joined (s : Session) (fragment : Registry) : Registry :=
  match s.registries.get? fragment.targetSpace with
  | none => fragment
  | some existing => (existing.mergeWith s.dedup fragment).1

/-- `s'` is `s` with the document of the root `root`, which is `d`, added. -/
structure Addition (s : Session) (root : NodeId) (d : Declaration) (s' : Session) : Prop where
  get?_root : s.arena.get? root = some d
  valid : ∀ c ∈ d.children, s.arena.Valid c
  arena : s'.arena = s.arena
  builtins : s'.builtins = s.builtins
  dedup : s'.dedup = s.dedup
  registries : s'.registries =
    s.registries.insert (Registry.targetSpaceOf d) (s.joined (s.fragment root d))

theorem targetSpace_fragment (s : Session) (root : NodeId) (d : Declaration) :
    (s.fragment root d).targetSpace = Registry.targetSpaceOf d :=
  (Registry.frame_fileLooked s.builtins (.ofRoot root d) (s.arena.look d.children)).1

theorem roots_fragment (s : Session) (root : NodeId) (d : Declaration) :
    (s.fragment root d).roots = [root] :=
  (Registry.frame_fileLooked s.builtins (.ofRoot root d) (s.arena.look d.children)).2.1

/-! ## filing and putting -/

/-- The registry of a document by itself, with what became of its children. -/
def filed (builtins : Builtins) (a : Arena) (root : NodeId) :
    Except Error (Registry × List (NodeId × Filing)) :=
  match a.get? root with
  | none => .error (.unknownNode root)
  | some d => match Registry.fileAll builtins a (.ofRoot root d) d.children with
    | (_, .error e) => .error e
    | (fragment, .ok filings) => .ok (fragment, filings)

/-- The notes on what a fragment replaces in its namespace. -/
def replacements (s : Session) (fragment : Registry) : List Diagnostic :=
  match s.registries.get? fragment.targetSpace with
  | none => []
  | some existing =>
    mergeNotes (existing.mergeWith s.dedup fragment).1
      (existing.mergeWith s.dedup fragment).2.redefined

/-- The session with a filed document in the registry of its namespace. -/
def put (s : Session) (fragment : Registry) (filings : List (NodeId × Filing)) : Session :=
  { s with
    registries := s.registries.insert fragment.targetSpace (s.joined fragment)
    diagnostics := s.diagnostics.append
      (filingNotes fragment.targetSpace filings ++ s.replacements fragment) }

/-- What is filed is the registry of the document, with what became of each of its
children. -/
theorem filed_eq_ok {builtins : Builtins} {a : Arena} {root : NodeId} {fragment : Registry}
    {filings : List (NodeId × Filing)} (h : filed builtins a root = .ok (fragment, filings)) :
    ∃ d, a.get? root = some d ∧ (∀ c ∈ d.children, a.Valid c) ∧
      fragment = Registry.fileLooked builtins (.ofRoot root d) (a.look d.children) ∧
      filings = Registry.filingsLooked builtins (.ofRoot root d) (a.look d.children) := by
  rw [filed] at h
  split at h
  · contradiction
  · next d hget =>
    split at h
    · contradiction
    · next r more hfile =>
      obtain ⟨rfl, rfl⟩ := Prod.mk.inj (Except.ok.inj h)
      obtain ⟨hvalid, hr, hfilings⟩ := Registry.fileAll_eq_ok hfile
      exact ⟨d, hget, hvalid, hr, hfilings⟩

/-- Storing a fragment changes the registry of its namespace, and notes. -/
theorem fold_eq (s : Session) (fragment : Registry) :
    s.fold fragment =
      { s with
        registries := s.registries.insert fragment.targetSpace (s.joined fragment)
        diagnostics := s.diagnostics.append (s.replacements fragment) } := by
  cases h : s.registries.get? fragment.targetSpace with
  | none => simp only [fold, joined, replacements, h, Diagnostics.append, List.append_nil]
  | some existing => simp only [fold, joined, replacements, h]

/-- **Adding a document** is filing it and putting it into its registry. -/
theorem addDocument_eq (s : Session) (root : NodeId) :
    s.addDocument root = (filed s.builtins s.arena root).map fun p => s.put p.1 p.2 := by
  rw [addDocument, Registry.forDocument, filed]
  cases hget : s.arena.get? root with
  | none => rfl
  | some d =>
      simp only [Registry.fileChildren, hget]
      cases Registry.fileAll s.builtins s.arena (.ofRoot root d) d.children with
      | mk fragment outcome =>
          cases outcome with
          | error e => rfl
          | ok filings =>
              simp only [Except.map, fold_eq, put, Diagnostics.append, List.append_assoc]
              rfl

/-- Adding a document succeeds exactly if it can be filed, and then puts its fragment. -/
theorem addDocument_eq_ok_iff {s s' : Session} {root : NodeId} :
    s.addDocument root = .ok s' ↔
      ∃ fragment filings, filed s.builtins s.arena root = .ok (fragment, filings) ∧
        s' = s.put fragment filings := by
  rw [addDocument_eq]
  constructor
  · intro h
    cases hfiled : filed s.builtins s.arena root with
    | error e => simp [hfiled, Except.map] at h
    | ok p =>
        rw [hfiled] at h
        exact ⟨p.1, p.2, rfl, (Except.ok.inj h).symm⟩
  · intro h
    obtain ⟨fragment, filings, hfiled, hput⟩ := h
    rw [hfiled, hput]
    rfl

/-- Nothing stands in the way of adding a document whose children all exist. -/
theorem exists_addDocument {s : Session} {root : NodeId} {d : Declaration}
    (hroot : s.arena.get? root = some d) (hvalid : ∀ c ∈ d.children, s.arena.Valid c) :
    ∃ s', s.addDocument root = .ok s' := by
  have hfiled : filed s.builtins s.arena root = .ok
      (s.fragment root d, Registry.filingsLooked s.builtins (.ofRoot root d)
        (s.arena.look d.children)) := by
    simp only [filed, hroot, Registry.fileAll_of_valid s.builtins _ hvalid, fragment]
  exact ⟨_, addDocument_eq_ok_iff.mpr ⟨_, _, hfiled, rfl⟩⟩

/-- Adding a document that succeeds is an addition of its root. -/
theorem addition_of_addDocument {s s' : Session} {root : NodeId}
    (h : s.addDocument root = .ok s') : ∃ d, s.Addition root d s' := by
  obtain ⟨fragment, filings, hfiled, rfl⟩ := addDocument_eq_ok_iff.mp h
  obtain ⟨d, hget, hvalid, hfragment, -⟩ := filed_eq_ok hfiled
  obtain rfl : fragment = s.fragment root d := hfragment
  refine ⟨d, hget, hvalid, rfl, rfl, rfl, ?_⟩
  rw [put, targetSpace_fragment]

end Session

end SchemaCatalog
