import SchemaCatalog.Proofs.Session.Interleaving

/-!
# SchemaCatalog.Proofs.Session.Atomicity

A document is added as a whole or not at all.  That a failed addition changes
nothing is more than what the result of `addDocument` can show, so the
addition is done here once more *in place*: an `Update` changes the session as
it goes, and one that fails leaves behind what its earlier steps have made of
it.  In place, notes are made one by one, before and after the registry of the
namespace is replaced, and the children are filed one by one into a registry
that a missing child leaves incomplete.

Everything that can fail comes before the first change, and so both ways of
adding a document agree (`on_addInPlace`).  What a successful addition may
change is the registry and the notes of one namespace.
-/

namespace SchemaCatalog

namespace Registry

/-- A node that does not exist ends the filing; the registry keeps what was
filed before. -/
theorem fileAll_of_not_valid (builtins : Builtins) {a : Arena} (r : Registry)
    {before after : List NodeId} {id : NodeId} (hbefore : ∀ q ∈ before, a.Valid q)
    (hid : ¬ a.Valid id) :
    fileAll builtins a r (before ++ id :: after) =
      (fileLooked builtins r (a.look before), .error (.unknownNode id)) := by
  induction before generalizing r with
  | nil =>
      have hnone := Arena.get?_eq_none_iff.mpr hid
      simp only [List.nil_append, fileAll, file, hnone]
      rfl
  | cons q before ih =>
      rw [List.forall_mem_cons] at hbefore
      obtain ⟨d, hget⟩ := Arena.valid_iff.mp hbefore.1
      simp only [List.cons_append, fileAll, file, hget, ih _ hbefore.2, Except.map,
        Arena.look_cons_some hget]
      rfl

end Registry

/-- Nodes exist up to the first that does not. -/
theorem Arena.all_valid_or_exists_first (a : Arena) (ids : List NodeId) :
    (∀ id ∈ ids, a.Valid id) ∨ ∃ before id after, ids = before ++ id :: after ∧
      (∀ q ∈ before, a.Valid q) ∧ ¬ a.Valid id := by
  induction ids with
  | nil => exact .inl fun id hid => absurd hid List.not_mem_nil
  | cons id ids ih =>
      by_cases hid : a.Valid id
      · rcases ih with hall | ⟨before, first, after, rfl, hbefore, hfirst⟩
        · exact .inl (List.forall_mem_cons.mpr ⟨hid, hall⟩)
        · exact .inr ⟨id :: before, first, after, rfl,
            List.forall_mem_cons.mpr ⟨hid, hbefore⟩, hfirst⟩
      · exact .inr ⟨[], id, ids, rfl, fun q hq => absurd hq List.not_mem_nil, hid⟩

/-! ## changing a session in place -/

/-- A computation that changes a session in place. If it fails, the session stays
as the steps until then have left it. -/
abbrev Update (α : Type) := ExceptT Error (StateM Session) α

namespace Update

variable {α β : Type}

/-- What a computation comes to, and the session that it leaves behind. -/
def on (u : Update α) (s : Session) : Except Error α × Session := u.run s

def attempt (out : Except Error α) : Update α := ExceptT.mk (pure out)

def note (n : Diagnostic) : Update Unit :=
  modify fun s => { s with diagnostics := s.diagnostics.push n }

def noteIf : Option Diagnostic → Update Unit
  | some n => note n
  | none => pure ()

/-- Stores the registry of a namespace, over an earlier one. -/
def store (space : String) (r : Registry) : Update Unit :=
  modify fun s => { s with registries := s.registries.insert space r }

section

variable (s : Session)

@[simp] theorem on_pure (a : α) : (pure a : Update α).on s = (.ok a, s) := rfl

/-- A failure is passed on with the session as it is by then. -/
theorem on_bind (u : Update α) (f : α → Update β) :
    (u >>= f).on s = match u.on s with
      | (.ok a, t) => (f a).on t
      | (.error e, t) => (.error e, t) := by
  simp only [on, ExceptT.run, bind, ExceptT.bind, ExceptT.mk, StateT.bind]
  cases u s with
  | mk out t => cases out <;> rfl

@[simp] theorem on_get : (get : Update Session).on s = (.ok s, s) := rfl

@[simp] theorem on_attempt (out : Except Error α) : (attempt out).on s = (out, s) := rfl

@[simp] theorem on_store (space : String) (r : Registry) :
    (store space r).on s = (.ok (), { s with registries := s.registries.insert space r }) := rfl

@[simp] theorem on_noteIf (n : Option Diagnostic) :
    (noteIf n).on s = (.ok (), { s with diagnostics := s.diagnostics.append n.toList }) := by
  cases n with
  | none => simp [noteIf, Diagnostics.append]
  | some n => rfl

/-- Notes that are made one by one are appended in order. -/
theorem on_forM_noteIf (xs : List α) (f : α → Option Diagnostic) :
    (xs.forM fun x => noteIf (f x)).on s =
      (.ok (), { s with diagnostics := s.diagnostics.append (xs.filterMap f) }) := by
  induction xs generalizing s with
  | nil => simp [Diagnostics.append]
  | cons x xs ih =>
      rw [List.forM, on_bind, on_noteIf]
      simp only [ih, Diagnostics.append, List.append_assoc]
      cases hx : f x with
      | none => rw [List.filterMap_cons_none hx, Option.toList_none, List.nil_append]
      | some n => rw [List.filterMap_cons_some hx, Option.toList_some, List.singleton_append]

end

end Update

namespace Session

open Update

/-- The note on the filing of a child. -/
def filingNote? (space : String) : NodeId × Filing → Option Diagnostic
  | (node, .declared b name (some _)) => some (.redefinition space b name node)
  | (node, .missingLocation) => some (.missingLocation space node)
  | _ => none

def mergeNote? (merged : Registry) : Bucket × String → Option Diagnostic
  | (b, name) => (merged.lookup b name).map (.redefinition merged.targetSpace b name)

/-- Adds a document in place and returns the registry that it is in. -/
def addInPlace (root : NodeId) : Update Registry := do
  let fresh ← attempt (Registry.forDocument (← get).arena root)
  let (fragment, outcome) := fresh.fileChildren (← get).builtins (← get).arena root
  let filings ← attempt outcome
  filings.forM fun p => noteIf (filingNote? fragment.targetSpace p)
  match (← get).registries.get? fragment.targetSpace with
  | none =>
    store fragment.targetSpace fragment
    return fragment
  | some existing =>
    let (merged, report) := existing.mergeWith (← get).dedup fragment
    store fragment.targetSpace merged
    report.redefined.forM fun p => noteIf (mergeNote? merged p)
    return merged

/-- The notes made filing by filing are the notes of the filings. -/
theorem filterMap_filingNote? (space : String) (filings : List (NodeId × Filing)) :
    filings.filterMap (filingNote? space) = filingNotes space filings := by
  refine List.filterMap_congr fun p _ => ?_
  obtain ⟨node, filing⟩ := p
  cases filing with
  | declared b name replaced => cases replaced <;> rfl
  | reference reference => rfl
  | missingLocation => rfl
  | builtin => rfl
  | ignored => rfl

/-- **In place** a document is filed and put into its registry, or nothing
happens. -/
theorem on_addInPlace (s : Session) (root : NodeId) :
    (addInPlace root).on s = match filed s.builtins s.arena root with
      | .error e => (.error e, s)
      | .ok (fragment, filings) => (.ok (s.joined fragment), s.put fragment filings) := by
  simp only [addInPlace, on_bind, on_get, on_attempt, Registry.forDocument, filed]
  cases hget : s.arena.get? root with
  | none => rfl
  | some d =>
      simp only [Registry.fileChildren, hget]
      cases hfiled : Registry.fileAll s.builtins s.arena (.ofRoot root d) d.children with
      | mk fragment outcome =>
          cases outcome with
          | error e => rfl
          | ok filings =>
              simp only [on_forM_noteIf, filterMap_filingNote?]
              cases hexisting : s.registries.get? fragment.targetSpace with
              | none =>
                  simp only [on_bind, on_store, on_pure, joined, put, replacements, hexisting,
                    List.append_nil]
              | some existing =>
                  simp only [on_bind, on_get, on_store, on_forM_noteIf, on_pure, joined, put,
                    replacements, hexisting, Diagnostics.append, List.append_assoc]
                  rfl

/-- Filing fails on a root or child that does not exist, and on the first one
only. -/
theorem filed_eq_error {builtins : Builtins} {a : Arena} {root : NodeId} {e : Error}
    (h : filed builtins a root = .error e) :
    (a.get? root = none ∧ e = .unknownNode root) ∨
      ∃ d before c after, a.get? root = some d ∧ d.children = before ++ c :: after ∧
        (∀ q ∈ before, a.Valid q) ∧ ¬ a.Valid c ∧ e = .unknownNode c := by
  rw [filed] at h
  split at h
  · next hget => exact .inl ⟨hget, (Except.error.inj h).symm⟩
  · next d hget =>
    refine .inr ?_
    rcases a.all_valid_or_exists_first d.children with hall | ⟨before, c, after, hsplit, hbefore, hc⟩
    · rw [Registry.fileAll_of_valid builtins _ hall] at h
      contradiction
    · rw [hsplit, Registry.fileAll_of_not_valid builtins _ hbefore hc] at h
      exact ⟨d, before, c, after, hget, hsplit, hbefore, hc, (Except.error.inj h).symm⟩

/-- **All or nothing**, and in one place only.  If adding a document fails, it is
because its root or a child does not exist, the first such child if there are
several; the children before it have been filed by then, in a registry that is
dropped, and the session is as it was.  If it succeeds, the arena is as it was
and so are the registries of all other namespaces, and the notes that are made
stand behind the earlier ones and are about the namespace of the document. -/
theorem addDocument_atomic (s : Session) (root : NodeId) :
    (∀ e t, (addInPlace root).on s = (.error e, t) →
      t = s ∧ s.addDocument root = .error e ∧
      ((s.arena.get? root = none ∧ e = .unknownNode root) ∨
        ∃ d before c after, s.arena.get? root = some d ∧ d.children = before ++ c :: after ∧
          (∀ q ∈ before, s.arena.Valid q) ∧ ¬ s.arena.Valid c ∧ e = .unknownNode c ∧
          (Registry.ofRoot root d).fileChildren s.builtins s.arena root =
            (Registry.fileLooked s.builtins (.ofRoot root d) (s.arena.look before), .error e))) ∧
    ∀ r t, (addInPlace root).on s = (.ok r, t) →
      s.addDocument root = .ok t ∧
      ∃ d, s.arena.get? root = some d ∧ (∀ c ∈ d.children, s.arena.Valid c) ∧
        t.arena = s.arena ∧ t.builtins = s.builtins ∧ t.dedup = s.dedup ∧
        t.registries.get? (Registry.targetSpaceOf d) = some r ∧
        (∀ space, space ≠ Registry.targetSpaceOf d →
          t.registries.get? space = s.registries.get? space) ∧
        ∃ notes, t.diagnostics.items = s.diagnostics.items ++ notes ∧
          ∀ n ∈ notes, n.space = Registry.targetSpaceOf d := by
  rw [on_addInPlace, addDocument_eq]
  cases hfiled : filed s.builtins s.arena root with
  | error e =>
      refine ⟨fun e' t h => ?_, fun r t h => by simp at h⟩
      obtain ⟨he, rfl⟩ := Prod.mk.inj h
      obtain rfl := Except.error.inj he
      refine ⟨rfl, rfl, (filed_eq_error hfiled).imp_right ?_⟩
      rintro ⟨d, before, c, after, hget, hsplit, hbefore, hc, rfl⟩
      refine ⟨d, before, c, after, hget, hsplit, hbefore, hc, rfl, ?_⟩
      simp only [Registry.fileChildren, hget, hsplit]
      exact Registry.fileAll_of_not_valid s.builtins _ hbefore hc
  | ok p =>
      obtain ⟨fragment, filings⟩ := p
      refine ⟨fun e t h => by simp at h, fun r t h => ?_⟩
      obtain ⟨hr, rfl⟩ := Prod.mk.inj h
      obtain rfl := Except.ok.inj hr
      obtain ⟨d, hget, hvalid, hfragment, -⟩ := filed_eq_ok hfiled
      have hspace : fragment.targetSpace = Registry.targetSpaceOf d := by
        rw [hfragment]
        exact targetSpace_fragment s root d
      refine ⟨rfl, d, hget, hvalid, rfl, rfl, rfl, ?_, fun space hne => ?_, _, rfl, fun n hn => ?_⟩
      · rw [← hspace]
        exact Table.get?_insert_self _ _ _
      · rw [← hspace] at hne
        exact Table.get?_insert_of_ne _ _ hne
      · rw [← hspace]
        rcases List.mem_append.mp hn with hn | hn
        · exact space_of_mem_filingNotes hn
        · exact space_of_mem_replacements hn

/-! Two documents of one namespace; a child of the second one is missing. -/

/-- The missing child stands between two that are there. -/
def gappedArena : Arena where
  nodes := #[
    { kind := .schema, space := "urn:a", children := [⟨1⟩] },
    { kind := .element, name := some "first", space := "urn:a" },
    { kind := .schema, space := "urn:a", children := [⟨1⟩, ⟨9⟩, ⟨1⟩] }]

def gappedSession : Session :=
  ((({ arena := gappedArena } : Session).addDocument ⟨0⟩).toOption).getD {}

/-- The second document leaves the session as it is, though its first child has
been filed by the time it fails.  The first document can be added again, with
one more note. -/
theorem addDocument_atomic_gapped :
    (addInPlace ⟨2⟩).on gappedSession = (.error (.unknownNode ⟨9⟩), gappedSession) ∧
      ∃ t notes, gappedSession.addDocument ⟨0⟩ = .ok t ∧ t.arena = gappedSession.arena ∧
        t.diagnostics.items = gappedSession.diagnostics.items ++ notes ∧
        notes.map (·.space) = ["urn:a"] := by
  obtain ⟨hfail, -⟩ := addDocument_atomic gappedSession ⟨2⟩
  obtain ⟨-, hok⟩ := addDocument_atomic gappedSession ⟨0⟩
  constructor
  · cases hrun : (addInPlace ⟨2⟩).on gappedSession with
    | mk out t =>
        obtain rfl : out = .error (.unknownNode ⟨9⟩) := (congrArg Prod.fst hrun).symm
        obtain ⟨rfl, -⟩ := hfail _ _ hrun
        rfl
  · obtain ⟨hadd, d, -, -, harena, -, -, -, -, notes, hitems, -⟩ := hok _ _ rfl
    refine ⟨_, notes, hadd, harena, hitems, ?_⟩
    have hbefore : gappedSession.diagnostics.items = [] := rfl
    rw [hbefore, List.nil_append] at hitems
    rw [← hitems]
    rfl

end Session

end SchemaCatalog
