import SchemaCatalog.Proofs.Reference.Strictness
import SchemaCatalog.Proofs.Walk.ExactlyOnce

/-!
# SchemaCatalog.Proofs.Walk.Retry

A walk that fails leaves flags behind, and a later walk enters no flagged node.
If the failure was below a flagged node, the rest of what lies below it may
have been cut off.  What a second walk finds is therefore not everything that
was left undone but the nodes that are *exposed*: those that can be reached
from a root past no node that the first walk has accepted (`Exposed`).

* `mem_called_iff_fresh`: what any walk of a session calls, whatever flags it
  finds;
* `retry_exact`: what a second walk calls after a failed one, and what is
  flagged then, for walks with any visitor and for the resolution of
  references;
* `retry_cut_off`: a node that is left undone, below one that was accepted.
-/

namespace SchemaCatalog

namespace Session

open Walk Relation

/-! ## walks that find flags -/

/-- **What a walk calls**: roots apart, the nodes that can be reached from a
root past no flagged node. -/
theorem mem_called_iff_fresh {s : Session} (hclosed : s.arena.Closed) {id : NodeId}
    (hid : ¬ s.IsRoot id) :
    id ∈ called s.itinerary ↔ ∃ root, s.IsRoot root ∧ TransGen s.arena.FreshEdge root id := by
  constructor
  · intro hcalled
    obtain ⟨c, hc, hnode⟩ := mem_called.mp hcalled
    obtain ⟨t, ht, hlead⟩ := leadsFresh_of_mem_calls_route hc
    obtain ⟨r, hr, root, hroot, htask⟩ := mem_enterAll.mp ht
    subst htask hnode
    exact ⟨root, ⟨r, hr, hroot⟩, hlead.2.2⟩
  · intro hpath
    obtain ⟨root, ⟨r, hr, hroot⟩, hpath⟩ := hpath
    exact (root_or_called_of_freshPath hclosed hr hroot hpath).resolve_left hid

/-- A visitor that refuses nothing goes along the whole route. -/
theorem walkAll_accepting {s : Session} (hrooted : s.Rooted) (hclosed : s.arena.Closed) {σ : Type}
    {visit : Visitor σ} (haccept : visit.Accepts) (state : σ) :
    ∃ final tally, s.walkAll visit state = (s.marked (called s.itinerary), final, .ok tally) := by
  obtain ⟨w, hfollow, harena⟩ := follow_accepting hrooted hclosed (fun _ hr => hr) haccept state
  refine ⟨w.state, w.tally, ?_⟩
  rw [walkAll_eq_follow, itinerary, hfollow, outcome, harena, marked]

/-- A walk that fails has flagged the nodes of all its calls but the last. -/
theorem walkAll_refused_logged {s s' : Session} (hrooted : s.Rooted) (hclosed : s.arena.Closed)
    {σ : Type} {visit : Visitor σ} {state final : σ} {e : Error}
    (h : s.walkAll visit state = (s', final, .error e)) :
    ∃ accepted refused after, calls s.itinerary = accepted ++ refused :: after ∧
      s' = s.marked (accepted.map (·.node)) ∧
      s.walkAll visit.logged (state, []) = (s', (final, accepted ++ [refused]), .error e) := by
  rw [walkAll_eq_follow] at h
  cases hfollow : follow visit s.registries { arena := s.arena, state } s.itinerary with
  | mk w fault =>
      rw [hfollow] at h
      cases fault with
      | none => simp [outcome] at h
      | some e' =>
          simp only [outcome, Prod.mk.injEq, Except.error.injEq] at h
          obtain ⟨hsession, hstate, herror⟩ := h
          subst herror
          obtain ⟨before, c, after, hcalls, harena, hlogged⟩ :=
            follow_refused (hrooted.unknown_not_mem_itinerary hclosed) hfollow []
          have hmarked : s' = s.marked (before.map (·.node)) := by
            rw [← hsession, harena, marked]
          refine ⟨before, c, after, hcalls, hmarked, ?_⟩
          rw [walkAll_eq_follow, hlogged, outcome, hstate, List.nil_append, ← hsession]

/-! ## a second walk -/

/-- The node can be reached from a root, and neither it nor any node on the way
there, the root apart, has been accepted. -/
def Exposed (s : Session) (accepted : List Call) (id : NodeId) : Prop :=
  ∃ root, s.IsRoot root ∧
    TransGen (fun p c => s.arena.Edge p c ∧ c ∉ accepted.map (·.node)) root id

/-- A second walk has made the calls `log` and ended in `after`, when a first
one had accepted the calls `accepted`: of the nodes that are no roots, it has
called each one that was exposed once and no other, and what is flagged now
are those and the ones accepted before. -/
structure CaughtUp (s : Session) (accepted log : List Call) (after : Session) : Prop where
  once : ∀ id, ¬ s.IsRoot id → s.Exposed accepted id → (log.map (·.node)).count id = 1
  never : ∀ id, ¬ s.IsRoot id → ¬ s.Exposed accepted id → id ∉ log.map (·.node)
  flagged : ∀ id, ¬ s.IsRoot id →
    (after.arena.isProcessed id = true ↔ id ∈ accepted.map (·.node) ∨ s.Exposed accepted id)

/-- What can be said of `failed` if a walk of `s` has ended there after it had
accepted some calls: the nodes of these calls are flagged, and a second walk
catches up, be it with a visitor that refuses nothing or to resolve references
leniently. -/
structure Retried (s failed : Session) (accepted : List Call) : Prop where
  flagged : ∀ id, failed.arena.isProcessed id = true ↔ id ∈ accepted.map (·.node)
  walk : ∀ (τ : Type) (visit : Visitor τ), visit.Accepts → ∀ state : τ,
    ∃ after final log tally, failed.walkAll visit state = (after, final, .ok tally) ∧
      failed.walkAll visit.logged (state, []) = (after, (final, log), .ok tally) ∧
      s.CaughtUp accepted log after
  resolve : ∃ after r log, failed.resolveReferences false = (after, .ok r) ∧
    (failed.walkAll Resolver.visit.logged ({ builtins := s.builtins, strict := false }, [])).2.1 =
      (r, log) ∧
    s.CaughtUp accepted log after

/-- `failed` is `s` with the nodes of some calls flagged, notes apart. -/
structure Halted (s failed : Session) (accepted : List Call) : Prop where
  rooted : failed.Rooted
  valid : ∀ c ∈ accepted, s.arena.Valid c.node
  arena : failed.arena = s.arena.markAll (accepted.map (·.node))
  registries : failed.registries = s.registries
  builtins : failed.builtins = s.builtins

section

variable {s failed : Session} {accepted : List Call}

/-- The flags that a failed walk leaves are its accepted calls. -/
theorem Halted.isProcessed_iff (h : s.Halted failed accepted) (hfresh : s.arena.Unprocessed)
    (id : NodeId) : failed.arena.isProcessed id = true ↔ id ∈ accepted.map (·.node) := by
  have hvalid : id ∈ accepted.map (·.node) → s.arena.Valid id := by
    intro hmem
    obtain ⟨c, hc, hnode⟩ := List.mem_map.mp hmem
    exact hnode ▸ h.valid c hc
  rw [h.arena, Arena.isProcessed_markAll, Arena.isProcessed_of_unprocessed hfresh]
  simp only [Bool.false_eq_true, false_or]
  exact and_iff_right_of_imp hvalid

/-- A failed walk leaves the arena closed. -/
theorem Halted.closed (h : s.Halted failed accepted) (hclosed : s.arena.Closed) :
    failed.arena.Closed := by
  rw [h.arena]
  exact Arena.closed_markAll hclosed _

/-- After the failure, a node that is no root is called if it is exposed. -/
theorem Halted.mem_called_iff (h : s.Halted failed accepted) (hclosed : s.arena.Closed)
    (hfresh : s.arena.Unprocessed) {id : NodeId} (hid : ¬ s.IsRoot id) :
    id ∈ called failed.itinerary ↔ s.Exposed accepted id := by
  have hroots : failed.IsRoot = s.IsRoot := by
    funext q
    rw [IsRoot, IsRoot, h.registries]
  have hedges : failed.arena.FreshEdge =
      fun p c => s.arena.Edge p c ∧ c ∉ accepted.map (·.node) := by
    funext p c
    rw [Arena.FreshEdge, ← Bool.not_eq_true, h.isProcessed_iff hfresh, h.arena, Arena.edge_markAll]
  rw [mem_called_iff_fresh (h.closed hclosed) (by rw [hroots]; exact hid), hroots, hedges, Exposed]

/-- The whole route of a second walk catches up. -/
theorem Halted.caughtUp (h : s.Halted failed accepted) (hclosed : s.arena.Closed)
    (hfresh : s.arena.Unprocessed) {after : Session}
    (hafter : after.arena = failed.arena.markAll (called failed.itinerary)) :
    s.CaughtUp accepted (calls failed.itinerary) after where
  once := by
    intro id hid hexposed
    have hmem := (h.mem_called_iff hclosed hfresh hid).mpr hexposed
    exact List.count_eq_one_of_mem (nodup_called_route _ _) hmem
  never := fun id hid hexposed hmem =>
    hexposed ((h.mem_called_iff hclosed hfresh hid).mp hmem)
  flagged := by
    intro id hid
    have hvalid : id ∈ called failed.itinerary → failed.arena.Valid id := valid_of_mem_called_route
    rw [hafter, Arena.isProcessed_markAll, h.isProcessed_iff hfresh,
      and_iff_right_of_imp hvalid, h.mem_called_iff hclosed hfresh hid]

/-- After a walk that halted, a retry catches up. -/
theorem Halted.retried (h : s.Halted failed accepted) (hclosed : s.arena.Closed)
    (hfresh : s.arena.Unprocessed) : s.Retried failed accepted := by
  have hclosed' := h.closed hclosed
  constructor
  · exact h.isProcessed_iff hfresh
  · intro τ visit haccept state
    obtain ⟨final, tally, hwalk⟩ := walkAll_accepting h.rooted hclosed' haccept state
    exact ⟨_, final, _, tally, hwalk, walkAll_logged hwalk, h.caughtUp hclosed hfresh rfl⟩
  · obtain ⟨r, htaken, -, -⟩ := Resolver.takeAll_lenient
      (r := { builtins := failed.builtins, strict := false }) rfl
      ((calls failed.itinerary).flatMap (·.attempts failed))
    have hrun := resolveReferences_taken h.rooted hclosed' htaken
    obtain ⟨tally, hwalk⟩ := walkAll_taken h.rooted hclosed' rfl htaken
    refine ⟨_, r, _, hrun, ?_, h.caughtUp hclosed hfresh rfl⟩
    rw [← h.builtins, walkAll_logged hwalk]

end

/-- **A retry** after a failed walk, be that with any visitor or to resolve
references strictly, calls the nodes that are exposed: those that can be
reached from a root past no node that the failed walk had accepted.  What lies
only below accepted nodes is cut off. -/
theorem retry_exact {s : Session} (hbuilt : s.Built) (hclosed : s.arena.Closed)
    (hfresh : s.arena.Unprocessed) :
    (∀ (σ : Type) (visit : Visitor σ) (state final : σ) (failed : Session) (e : Error),
      s.walkAll visit state = (failed, final, .error e) →
      ∃ accepted refused,
        s.walkAll visit.logged (state, []) = (failed, (final, accepted ++ [refused]), .error e) ∧
        s.Retried failed accepted) ∧
    ∀ (failed : Session) (e : Error), s.resolveReferences true = (failed, .error e) →
      ∃ accepted refused,
        (s.walkAll Resolver.visit.logged ({ builtins := s.builtins, strict := true }, [])).2.1.2 =
          accepted ++ [refused] ∧
        s.Retried failed accepted := by
  have hrooted := hbuilt.rooted
  have hvalid : ∀ {accepted after : List Call} {refused : Call},
      calls s.itinerary = accepted ++ refused :: after →
      ∀ c ∈ accepted, s.arena.Valid c.node := by
    intro accepted after refused hcalls c hc
    refine valid_of_mem_itinerary ?_
    rw [hcalls]
    exact List.mem_append_left _ hc
  constructor
  · intro σ visit state final failed e h
    obtain ⟨accepted, refused, after, hcalls, hfailed, hlogged⟩ :=
      walkAll_refused_logged hrooted hclosed h
    refine ⟨accepted, refused, hlogged, Halted.retried ?_ hclosed hfresh⟩
    subst hfailed
    exact ⟨hrooted.marked _, hvalid hcalls, rfl, rfl, rfl⟩
  · intro failed e h
    cases hwalk : s.walkAll Resolver.visit { builtins := s.builtins, strict := true } with
    | mk s' p =>
        obtain ⟨final, out⟩ := p
        have hnoted := walkAll_withNotes s s.noted.diagnostics Resolver.visit
          { builtins := s.builtins, strict := true }
        rw [hwalk] at hnoted
        simp only [noted] at hnoted
        simp only [resolveReferences, hnoted] at h
        cases out with
        | ok tally => simp at h
        | error e' =>
            simp only [Prod.mk.injEq] at h
            obtain ⟨accepted, refused, after, hcalls, hfailed, hlogged⟩ :=
              walkAll_refused_logged hrooted hclosed hwalk
            refine ⟨accepted, refused, by rw [hlogged], Halted.retried ?_ hclosed hfresh⟩
            rw [← h.1, hfailed]
            exact ⟨hrooted.noted.marked _, hvalid hcalls, rfl, rfl, rfl⟩

/-! ## a failure below an accepted node -/

/-- A document with two declarations; below the first one there is a third. -/
def forkedArena : Arena where
  nodes := #[
    { kind := .schema, space := "urn:a", children := [⟨1⟩, ⟨3⟩] },
    { kind := .complexType, name := some "Outer", space := "urn:a", children := [⟨2⟩] },
    { kind := .element, name := some "inner", space := "urn:a" },
    { kind := .element, name := some "next", space := "urn:a" }]

def forkedRegistry : Registry where
  targetSpace := "urn:a"
  roots := [⟨0⟩]
  declarations := ((PerBucket.fill ∅).set .complexTypes (.ofList [("Outer", ⟨1⟩)])).set
    .elements (.ofList [("next", ⟨3⟩)])

def forkedSession : Session where
  arena := forkedArena
  registries := .ofList [("urn:a", forkedRegistry)]

/-- A visitor that counts its calls and refuses one node. -/
def refusing (id : NodeId) : Visitor Nat := fun _ q n =>
  if q = id then (n, some (.unresolvedReference id "type" "Missing")) else (n + 1, none)

theorem built_forkedSession : forkedSession.Built := by
  have hedit : Built { arena := forkedArena } := (Built.new .xsd true).edit forkedArena (by decide)
  have hadd : ({ arena := forkedArena } : Session).addDocument ⟨0⟩ = .ok forkedSession := rfl
  exact hedit.add hadd

theorem itinerary_forkedSession : forkedSession.itinerary =
    [.call ⟨⟨1⟩, ⟨0⟩, forkedRegistry⟩, .call ⟨⟨2⟩, ⟨0⟩, forkedRegistry⟩,
      .call ⟨⟨3⟩, ⟨0⟩, forkedRegistry⟩] := by
  have hvalues : forkedSession.registries.values = [forkedRegistry] := rfl
  rw [itinerary, hvalues]
  simp [enterAll, forkedSession, forkedArena, forkedRegistry, route, Task.below, Arena.get?,
    Arena.markProcessed, Arena.modify]

/-- A walk that refuses the inner declaration ends there. -/
theorem walkAll_forkedSession : forkedSession.walkAll (refusing ⟨2⟩) 0 =
    (forkedSession.marked [⟨1⟩], 1, .error (.unresolvedReference ⟨2⟩ "type" "Missing")) := by
  rw [walkAll_eq_follow, itinerary_forkedSession]
  rfl

theorem walkAll_forkedSession_logged : forkedSession.walkAll (refusing ⟨2⟩).logged (0, []) =
    (forkedSession.marked [⟨1⟩],
      (1, [⟨⟨1⟩, ⟨0⟩, forkedRegistry⟩] ++ [⟨⟨2⟩, ⟨0⟩, forkedRegistry⟩]),
      .error (.unresolvedReference ⟨2⟩ "type" "Missing")) := by
  rw [walkAll_eq_follow, itinerary_forkedSession]
  rfl

/-- A second walk of that document calls the declaration that stands next. -/
theorem retry_exact_forked :
    forkedSession.Built ∧ forkedSession.arena.Closed ∧ forkedSession.arena.Unprocessed ∧
      ∃ (failed : Session) (final : Nat) (e : Error),
        forkedSession.walkAll (refusing ⟨2⟩) 0 = (failed, final, .error e) ∧
        ∃ (after : Session) (n : Nat) (log : List Call) (tally : Tally),
          failed.walkAll counting.logged (0, []) = (after, (n, log), .ok tally) ∧
          (log.map (·.node)).count ⟨3⟩ = 1 ∧ after.arena.isProcessed ⟨3⟩ = true := by
  have hclosed : forkedSession.arena.Closed := by decide +kernel
  have hfresh : forkedSession.arena.Unprocessed := by decide +kernel
  have haccept : counting.Accepts := fun _ _ _ => rfl
  obtain ⟨accepted, refused, hlogged, hretried⟩ :=
    (retry_exact built_forkedSession hclosed hfresh).1 _ _ _ _ _ _ walkAll_forkedSession
  have haccepted : accepted = [⟨⟨1⟩, ⟨0⟩, forkedRegistry⟩] := by
    have hlog := congrArg (fun p => p.2.1.2.dropLast)
      (hlogged.symm.trans walkAll_forkedSession_logged)
    simpa using hlog
  have hroot : forkedSession.IsRoot ⟨0⟩ := by
    rw [IsRoot]
    decide +kernel
  have hid : ¬ forkedSession.IsRoot ⟨3⟩ := by
    rw [IsRoot]
    decide +kernel
  have hexposed : forkedSession.Exposed accepted ⟨3⟩ := by
    have hedge : forkedSession.arena.Edge ⟨0⟩ ⟨3⟩ := ⟨_, rfl, by decide +kernel⟩
    exact ⟨⟨0⟩, hroot, .single ⟨hedge, by simp [haccepted]⟩⟩
  obtain ⟨after, n, log, tally, -, hsecond, hcaught⟩ := hretried.walk Nat counting haccept 0
  exact ⟨built_forkedSession, hclosed, hfresh, _, _, _, walkAll_forkedSession, after, n, log, tally,
    hsecond, hcaught.once ⟨3⟩ hid hexposed, (hcaught.flagged ⟨3⟩ hid).mpr (.inr hexposed)⟩

/-- **Cut off**: the inner declaration lies below the root and has not been
accepted by a walk that fails, but a second walk, which would accept it, does
not call it and leaves it without a flag. -/
theorem retry_cut_off :
    forkedSession.Built ∧ forkedSession.arena.Closed ∧ forkedSession.arena.Unprocessed ∧
      forkedSession.Below ⟨2⟩ ∧ ¬ forkedSession.IsRoot ⟨2⟩ ∧ counting.Accepts ∧
      ∃ (failed : Session) (e : Error) (accepted : List Call) (refused : Call),
        forkedSession.walkAll (refusing ⟨2⟩).logged (0, []) =
          (failed, (1, accepted ++ [refused]), .error e) ∧
        ⟨2⟩ ∉ accepted.map (·.node) ∧
        ∃ (after : Session) (log : List Call) (tally : Tally),
          failed.walkAll counting.logged (0, []) = (after, (1, log), .ok tally) ∧
          ⟨2⟩ ∉ log.map (·.node) ∧ after.arena.isProcessed ⟨2⟩ = false := by
  have hbelow : forkedSession.Below ⟨2⟩ := by
    refine ⟨⟨0⟩, ?_, .tail (.single ⟨_, rfl, List.mem_cons_self⟩) ⟨_, rfl, List.mem_cons_self⟩⟩
    rw [IsRoot]
    decide +kernel
  have hid : ¬ forkedSession.IsRoot ⟨2⟩ := by
    rw [IsRoot]
    decide +kernel
  have hitinerary : (forkedSession.marked [⟨1⟩]).itinerary =
      [.skip, .call ⟨⟨3⟩, ⟨0⟩, forkedRegistry⟩] := by
    have hvalues : (forkedSession.marked [⟨1⟩]).registries.values = [forkedRegistry] := rfl
    rw [itinerary, hvalues]
    simp [enterAll, marked, Arena.markAll, forkedSession, forkedArena, forkedRegistry, route,
      Task.below, Arena.get?, Arena.markProcessed, Arena.modify]
  have hsecond : (forkedSession.marked [⟨1⟩]).walkAll counting.logged (0, []) =
      (forkedSession.marked [⟨1⟩, ⟨3⟩], (1, [⟨⟨3⟩, ⟨0⟩, forkedRegistry⟩]),
        .ok { processed := 1, skipped := 1 }) := by
    rw [walkAll_eq_follow, hitinerary]
    rfl
  exact ⟨built_forkedSession, by decide +kernel, by decide +kernel, hbelow, hid,
    fun _ _ _ => rfl, _, _, _, _, walkAll_forkedSession_logged, by simp, _, _, _, hsecond,
    by simp, rfl⟩

end Session

end SchemaCatalog
