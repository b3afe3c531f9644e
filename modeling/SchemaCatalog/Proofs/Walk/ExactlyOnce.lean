import Mathlib.Data.List.Nodup
import SchemaCatalog.Proofs.Session.Built

/-!
# SchemaCatalog.Proofs.Walk.ExactlyOnce

Walking a session calls the visitor once on every node below the registries'
roots, however the nodes are shared and linked.  A root of one registry may be
met below another; it is then called at most once, and its children are taken
in any case.

Two devices keep a walk from calling a node again, the roots of the registry
at hand and the flags, and neither enters a node that it skips.  That nothing
is lost all the same is `Walk.root_or_processed_of_transGen`; here it is
carried over to whole sessions, to walks that take the namespaces in another
order (`walkSpaces_eq`), and to a second walk.
-/

namespace SchemaCatalog

namespace Session

open Walk Relation

/-! ## roots and what lies below them -/

/-- The root of a document in some registry. -/
def IsRoot (s : Session) (id : NodeId) : Prop := ∃ r ∈ s.registries.values, id ∈ r.roots

/-- Can be reached from a root by at least one edge. -/
def Below (s : Session) (id : NodeId) : Prop :=
  ∃ root, s.IsRoot root ∧ TransGen s.arena.Edge root id

/-! ## calls of a walk through some registries -/

section

variable {s : Session} {registries : List Registry}

/-- Whatever a walk calls is below the roots. -/
theorem below_of_mem_called (hmem : ∀ r ∈ registries, r ∈ s.registries.values) {id : NodeId}
    (hid : id ∈ called (route s.arena (enterAll registries))) : s.Below id := by
  obtain ⟨c, hc, rfl⟩ := mem_called.mp hid
  obtain ⟨t, ht, hlead⟩ := leads_of_mem_calls_route hc
  obtain ⟨r, hr, root, hroot, rfl⟩ := mem_enterAll.mp ht
  exact ⟨root, ⟨r, hmem r hr, hroot⟩, hlead.2.2⟩

/-- Through all registries, in whatever order, the calls on nodes that are not
roots are those on the nodes below roots. -/
theorem mem_called_iff_below (hclosed : s.arena.Closed) (hfresh : s.arena.Unprocessed)
    (hmem : ∀ r, r ∈ registries ↔ r ∈ s.registries.values) {id : NodeId} (hid : ¬ s.IsRoot id) :
    id ∈ called (route s.arena (enterAll registries)) ↔ s.Below id := by
  constructor
  · exact below_of_mem_called fun r hr => (hmem r).mp hr
  · rintro ⟨root, ⟨r, hr, hroot⟩, hpath⟩
    have h := root_or_processed_of_transGen hclosed hfresh ((hmem r).mpr hr) hroot hpath
    refine h.resolve_left ?_
    rintro ⟨r', hr', hroot'⟩
    exact hid ⟨r', (hmem r').mp hr', hroot'⟩

/-- A visitor that accepts every node is called along the whole route. -/
theorem follow_accepting {σ : Type} (hrooted : s.Rooted) (hclosed : s.arena.Closed)
    (hmem : ∀ r ∈ registries, r ∈ s.registries.values) {visit : Visitor σ}
    (haccept : visit.Accepts) (state : σ) :
    ∃ w', follow visit s.registries { arena := s.arena, state }
        (route s.arena (enterAll registries)) = (w', none) ∧
      w'.arena = s.arena.markAll (called (route s.arena (enterAll registries))) := by
  have hknown := unknown_not_mem_route hclosed (hrooted.valid_target hmem)
  have hnone : (follow visit s.registries { arena := s.arena, state }
      (route s.arena (enterAll registries))).2 = none :=
    follow_eq_none hknown fun c _ ids state => haccept _ _ _
  exact ⟨_, Prod.ext rfl hnone, arena_follow (Prod.ext rfl hnone)⟩

end

/-! ## namespaces in any order -/

/-- Walks the registries of namespaces one after the other. -/
def walkSpaces {σ : Type} (s : Session) (visit : Visitor σ) (state : σ) :
    List String → Session × σ × Option Error
  | [] => (s, state, none)
  | space :: rest =>
    match s.walkSpace space visit state with
    | (s, state, .error e) => (s, state, some e)
    | (s, state, .ok _) => s.walkSpaces visit state rest

/-- Walking namespaces one by one flags what one walk through their registries
calls. -/
theorem walkSpaces_eq {s : Session} {σ : Type} (hrooted : s.Rooted) (hclosed : s.arena.Closed)
    {visit : Visitor σ} (haccept : visit.Accepts) (state : σ) {order : List String}
    (horder : ∀ space ∈ order, space ∈ s.registries.keys) :
    ∃ state', s.walkSpaces visit state order =
      (s.marked (called (route s.arena (enterAll (order.filterMap s.registries.get?)))),
        state', none) := by
  induction order generalizing s state with
  | nil => exact ⟨state, by simp [walkSpaces, marked, enterAll]⟩
  | cons space order ih =>
      rw [List.forall_mem_cons] at horder
      obtain ⟨r, hr⟩ := mem_registries_keys.mp horder.1
      have hmem : ∀ q ∈ [r], q ∈ s.registries.values := by
        intro q hq
        rw [List.mem_singleton.mp hq]
        exact mem_registries_values.mpr ⟨space, hr⟩
      obtain ⟨w', hfollow, harena⟩ := follow_accepting hrooted hclosed hmem haccept state
      have hfirst : s.walkSpaces visit state (space :: order) =
          (s.marked (called (route s.arena (enterAll [r])))).walkSpaces visit w'.state order := by
        rw [walkSpaces, walkSpace_eq_follow hr, hfollow]
        simp only [outcome, Except.map, harena, marked]
      obtain ⟨state', hrest⟩ :=
        ih (hrooted.marked _) (Arena.closed_markAll hclosed _) w'.state horder.2
      refine ⟨state', ?_⟩
      rw [hfirst, hrest, List.filterMap_cons_some hr,
        enterAll_cons r (order.filterMap s.registries.get?), route_append, called_append]
      simp only [marked, Arena.markAll_append]

/-! ## the walk of a session -/

/-- **A second walk** after a complete one calls nothing, whatever its visitor. -/
theorem walkAll_of_settled {s : Session} (hrooted : s.Rooted) (hclosed : s.arena.Closed)
    (hsettled : ∀ t ∈ enterAll s.registries.values, t.Settled s.arena) {σ : Type}
    (visit : Visitor σ) (state : σ) :
    ∃ t : Tally, (s.walkAll visit state).2.2 = .ok t ∧ t.processed = 0 := by
  have hknown := hrooted.unknown_not_mem_itinerary hclosed
  have hcalls : calls s.itinerary = [] := calls_route_of_settled hsettled
  have hnone : (follow visit s.registries { arena := s.arena, state } s.itinerary).2 = none := by
    refine follow_eq_none hknown ?_
    rw [hcalls]
    exact fun c hc => absurd hc List.not_mem_nil
  refine ⟨(follow visit s.registries { arena := s.arena, state } s.itinerary).1.tally, ?_, ?_⟩
  · rw [walkAll_eq_follow, outcome, hnone]
  · rw [processed_follow (Prod.ext rfl hnone), hcalls]
    rfl

/-- **Exactly once**: a walk with a visitor that refuses nothing succeeds and
calls it once on each node that lies below a root and is no root itself, at
most once on a root, and on nothing that does not lie below a root.  Walking
the namespaces one by one, in any order and with any such visitor, leaves the
same nodes flagged, roots apart, and a second walk finds nothing to do. -/
theorem walkAll_exactly_once {s : Session} (hbuilt : s.Built) (hclosed : s.arena.Closed)
    (hfresh : s.arena.Unprocessed) {σ : Type} (visit : Visitor σ) (haccept : visit.Accepts)
    (state : σ) :
    ∃ (after : Session) (final : σ) (log : List Call) (tally : Tally),
      s.walkAll visit state = (after, final, .ok tally) ∧
      s.walkAll visit.logged (state, []) = (after, (final, log), .ok tally) ∧
      (∀ id, s.Below id → ¬ s.IsRoot id → (log.map (·.node)).count id = 1) ∧
      (∀ id, s.IsRoot id → (log.map (·.node)).count id ≤ 1) ∧
      (∀ id, ¬ s.Below id → (log.map (·.node)).count id = 0) ∧
      (∀ (order : List String), order.Perm s.registries.keys →
        ∀ (τ : Type) (visit' : Visitor τ), visit'.Accepts → ∀ state',
          (s.walkSpaces visit' state' order).2.2 = none ∧
          ∀ id, ¬ s.IsRoot id →
            (s.walkSpaces visit' state' order).1.arena.isProcessed id =
              after.arena.isProcessed id) ∧
      ∀ (τ : Type) (visit' : Visitor τ) (state' : τ),
        ∃ t : Tally, (after.walkAll visit' state').2.2 = .ok t ∧ t.processed = 0 := by
  have hrooted := hbuilt.rooted
  obtain ⟨w, hfollow, harena⟩ := follow_accepting hrooted hclosed (fun _ hr => hr) haccept state
  have hwalk : s.walkAll visit state =
      (s.marked (called s.itinerary), w.state, .ok w.tally) := by
    rw [walkAll_eq_follow, itinerary, hfollow, outcome, harena, marked]
  have hnodup : (called s.itinerary).Nodup := nodup_called_route _ _
  have hiff : ∀ id, ¬ s.IsRoot id → (id ∈ called s.itinerary ↔ s.Below id) :=
    fun id hid => mem_called_iff_below hclosed hfresh (fun _ => Iff.rfl) hid
  refine ⟨s.marked (called s.itinerary), w.state, calls s.itinerary, w.tally, hwalk,
    walkAll_logged hwalk, ?_, ?_, ?_, ?_, ?_⟩
  · intro id hbelow hid
    exact List.count_eq_one_of_mem hnodup ((hiff id hid).mpr hbelow)
  · intro id _
    exact List.nodup_iff_count_le_one.mp hnodup id
  · intro id hbelow
    exact List.count_eq_zero.mpr fun hmem => hbelow (below_of_mem_called (fun _ hr => hr) hmem)
  · intro order horder τ visit' haccept' state'
    have hkeys : ∀ space ∈ order, space ∈ s.registries.keys := fun space h => horder.mem_iff.mp h
    have hmem : ∀ r, r ∈ order.filterMap s.registries.get? ↔ r ∈ s.registries.values := by
      intro r
      rw [mem_registries_values, List.mem_filterMap]
      constructor
      · rintro ⟨space, -, hr⟩
        exact ⟨space, hr⟩
      · rintro ⟨space, hr⟩
        exact ⟨space, horder.mem_iff.mpr (mem_registries_keys.mpr ⟨r, hr⟩), hr⟩
    obtain ⟨final', hspaces⟩ := walkSpaces_eq hrooted hclosed haccept' state' hkeys
    refine ⟨by rw [hspaces], fun id hid => ?_⟩
    have harena' : (s.walkSpaces visit' state' order).1.arena =
        s.arena.markAll (called (route s.arena (enterAll (order.filterMap s.registries.get?)))) := by
      rw [hspaces, marked]
    rw [Bool.eq_iff_iff, harena', marked, Arena.isProcessed_markAll, Arena.isProcessed_markAll,
      mem_called_iff_below hclosed hfresh hmem hid,
      hiff id hid]
  · intro τ visit' state'
    refine walkAll_of_settled (hrooted.marked _) (Arena.closed_markAll hclosed _) ?_ visit' state'
    exact (settled_route s.arena (enterAll s.registries.values)).1

/-! ## two linked documents -/

/-- Two documents of different namespaces.  Two declarations of the first form
a cycle; the second document shares one of them and links to the root of the
first. -/
def linkedArena : Arena where
  nodes := #[
    { kind := .schema, space := "urn:a", children := [⟨2⟩, ⟨4⟩] },
    { kind := .schema, space := "urn:b", children := [⟨3⟩, ⟨0⟩] },
    { kind := .complexType, name := some "Ring", space := "urn:a", children := [⟨3⟩] },
    { kind := .element, name := some "link", space := "urn:a", children := [⟨2⟩] },
    { kind := .element, name := some "leaf", space := "urn:a" }]

def linkedSession : Session :=
  match ({ arena := linkedArena } : Session).addDocuments [⟨0⟩, ⟨1⟩] with
  | .ok s => s
  | .error _ => { arena := linkedArena }

theorem built_linkedSession : linkedSession.Built := by
  have hedit : Built { arena := linkedArena } := (Built.new .xsd true).edit linkedArena (by decide)
  have hadd : ({ arena := linkedArena } : Session).addDocuments [⟨0⟩, ⟨1⟩] = .ok linkedSession := rfl
  exact hedit.addDocuments hadd

/-- A visitor that counts its calls. -/
def counting : Visitor Nat := fun _ _ n => (n + 1, none)

/-- The declaration that the linked documents share is called once. -/
theorem walkAll_exactly_once_linked :
    linkedSession.Built ∧ linkedSession.arena.Closed ∧ linkedSession.arena.Unprocessed ∧
      counting.Accepts ∧
      ∃ (after : Session) (final : Nat) (log : List Call) (tally : Tally),
        linkedSession.walkAll counting.logged (0, []) = (after, (final, log), .ok tally) ∧
        (log.map (·.node)).count ⟨3⟩ = 1 := by
  have hclosed : linkedSession.arena.Closed := by decide +kernel
  have hfresh : linkedSession.arena.Unprocessed := by decide +kernel
  have haccept : counting.Accepts := fun _ _ _ => rfl
  refine ⟨built_linkedSession, hclosed, hfresh, haccept, ?_⟩
  obtain ⟨after, final, log, tally, -, hlogged, honce, -⟩ :=
    walkAll_exactly_once built_linkedSession hclosed hfresh counting haccept 0
  have hbelow : linkedSession.Below ⟨3⟩ := by
    refine ⟨⟨1⟩, ?_, .single ⟨_, rfl, List.mem_cons_self⟩⟩
    rw [IsRoot]
    decide +kernel
  have hroot : ¬ linkedSession.IsRoot ⟨3⟩ := by
    rw [IsRoot]
    decide +kernel
  exact ⟨after, final, log, tally, hlogged, honce ⟨3⟩ hbelow hroot⟩

end Session

end SchemaCatalog
