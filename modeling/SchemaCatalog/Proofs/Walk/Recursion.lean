import SchemaCatalog.Proofs.Walk.Follow

/-!
# SchemaCatalog.Proofs.Walk.Recursion

The walk as a recursion.  `visitNode` visits one node: it passes over a root of
the registry, a node that it has been at and a node that is flagged, and else
calls the visitor, flags the node and visits the children in order.  There is
no stack; what is still to be done stands in the calls that have not returned.

A walk along a stack does the same.  It asks about a node when the node is taken
off the stack, the recursion when it comes to the node, and in between lie all
nodes below the siblings before it.  The stack below the children of a node is
what the recursion does after it has returned from that node, so the two are
compared with an arbitrary rest of the stack (`drain_eq_resume`).

The recursion keeps a list of the nodes it has been at.  A walk needs none: a
node that was accepted is flagged (`Marked`).
-/

namespace SchemaCatalog

/-- How far a recursive traversal has come. -/
structure Traversal (σ : Type) extends Walk σ where
  /-- The nodes that were accepted on the way. -/
  visited : List NodeId := []

namespace Traversal

variable {σ : Type}

/-! ## the recursion -/

def skip (t : Traversal σ) : Traversal σ := { t with tally := t.tally.skip }

/-- The visitor has refused a node. -/
def refuse (t : Traversal σ) (state : σ) : Traversal σ := { t with state }

def accept (t : Traversal σ) (id : NodeId) (state : σ) : Traversal σ where
  arena := t.arena.markProcessed id
  state := state
  tally := t.tally.process
  visited := id :: t.visited

/-- How a traversal goes on; it takes back no flag. -/
abbrev Onward (t : Traversal σ) : Type :=
  { r : Traversal σ × Option Error // r.1.arena.pending ≤ t.arena.pending }

/-- Going on from a later point. -/
def Onward.since {t u : Traversal σ} (r : Onward u) (h : u.arena.pending ≤ t.arena.pending) :
    Onward t :=
  ⟨r.1, Nat.le_trans r.2 h⟩

mutual

/-- Visits a node and everything below it. -/
def visitNode (visit : Visitor σ) (registry : Registry) (registries : Table String Registry)
    (root : NodeId) (t : Traversal σ) (id : NodeId) : Onward t :=
  if id ∈ registry.roots ∨ id ∈ t.visited then ⟨(t.skip, none), Nat.le_refl _⟩
  else
    match known : t.arena.get? id with
    | none => ⟨(t, some (.unknownNode id)), Nat.le_refl _⟩
    | some d =>
      if flag : d.processed then ⟨(t.skip, none), Nat.le_refl _⟩
      else
        match visit ⟨t.arena, root, registry, registries⟩ id t.state with
        | (state, some e) => ⟨(t.refuse state, some e), Nat.le_refl _⟩
        | (state, none) =>
          (visitEach visit registry registries root (t.accept id state) d.children).since
            (Nat.le_of_lt (Arena.pending_markProcessed_lt known (by simpa using flag)))
  termination_by (t.arena.pending, 0)
  decreasing_by
    exact Prod.Lex.left _ _ (Arena.pending_markProcessed_lt known (by simpa using flag))

/-- Visits nodes one after the other, up to the first error. -/
def visitEach (visit : Visitor σ) (registry : Registry) (registries : Table String Registry)
    (root : NodeId) (t : Traversal σ) : List NodeId → Onward t
  | [] => ⟨(t, none), Nat.le_refl _⟩
  | id :: rest =>
    match visitNode visit registry registries root t id with
    | ⟨(u, some e), h⟩ => ⟨(u, some e), h⟩
    | ⟨(u, none), h⟩ => (visitEach visit registry registries root u rest).since h
  termination_by ids => (t.arena.pending, ids.length + 1)
  decreasing_by
  · exact Prod.Lex.right _ (Nat.succ_pos _)
  · rcases Nat.lt_or_eq_of_le h with hlt | heq
    · exact Prod.Lex.left _ _ hlt
    · rw [heq]
      exact Prod.Lex.right _ (Nat.lt_succ_self _)

end

/-- Visits the children of roots, root by root. -/
def visitBelow (visit : Visitor σ) (registry : Registry) (registries : Table String Registry)
    (t : Traversal σ) : List NodeId → Traversal σ × Option Error
  | [] => (t, none)
  | root :: roots =>
    match t.arena.get? root with
    | none => (t, some (.unknownNode root))
    | some d =>
      match (visitEach visit registry registries root t d.children).1 with
      | (u, some e) => (u, some e)
      | (u, none) => visitBelow visit registry registries u roots

end Traversal

/-- Visits everything below the roots of a registry, by recursion. -/
def Registry.traverse {σ : Type} (registry : Registry) (visit : Visitor σ)
    (registries : Table String Registry) (arena : Arena) (state : σ) : Walk σ × Option Error :=
  let (t, fault) := Traversal.visitBelow visit registry registries { arena, state } registry.roots
  (t.toWalk, fault)

/-! ## one turn along the stack -/

namespace Walk

variable {σ : Type} {visit : Visitor σ} {registry : Registry} {registries : Table String Registry}
  {root id : NodeId} {w : Walk σ} {d : Declaration}

/-- A root on the stack is skipped. -/
theorem drain_root (h : id ∈ registry.roots) (stack : List NodeId) :
    drain visit registry registries root w (id :: stack) =
      drain visit registry registries root { w with tally := w.tally.skip } stack := by
  rw [drain, if_pos h]

/-- An unknown node on the stack ends the walk. -/
theorem drain_unknown (hr : id ∉ registry.roots) (h : w.arena.get? id = none)
    (stack : List NodeId) :
    drain visit registry registries root w (id :: stack) = (w, some (.unknownNode id)) := by
  rw [drain, if_neg hr]
  split
  · rfl
  · next d hd => simp [h] at hd

/-- A known node on the stack is skipped if flagged, or else called. -/
theorem drain_known (hr : id ∉ registry.roots) (h : w.arena.get? id = some d)
    (stack : List NodeId) :
    drain visit registry registries root w (id :: stack) =
      if d.processed then
        drain visit registry registries root { w with tally := w.tally.skip } stack
      else
        match visit ⟨w.arena, root, registry, registries⟩ id w.state with
        | (state, some e) => ({ w with state }, some e)
        | (state, none) =>
          drain visit registry registries root
            { arena := w.arena.markProcessed id, state, tally := w.tally.process }
            (d.children ++ stack) := by
  rw [drain, if_neg hr]
  split
  · next hd => simp [h] at hd
  · next d' hd =>
    obtain rfl : d = d' := by simpa [h] using hd
    rfl

/-- A flagged node on the stack is skipped. -/
theorem drain_flagged (hr : id ∉ registry.roots) (h : w.arena.isProcessed id = true)
    (stack : List NodeId) :
    drain visit registry registries root w (id :: stack) =
      drain visit registry registries root { w with tally := w.tally.skip } stack := by
  cases hd : w.arena.get? id with
  | none => simp [Arena.isProcessed, hd] at h
  | some d =>
      rw [Arena.isProcessed_of_get? hd] at h
      rw [drain_known hr hd, if_pos h]

end Walk

/-! ## stack and recursion -/

namespace Traversal

variable {σ : Type}

/-- Every node that was accepted is flagged. -/
def Marked (t : Traversal σ) : Prop := ∀ id ∈ t.visited, t.arena.isProcessed id = true

/-- An accepted node is marked as it is visited. -/
theorem Marked.accept {t : Traversal σ} (h : t.Marked) {id : NodeId} (hid : t.arena.Valid id)
    (state : σ) : (t.accept id state).Marked := by
  intro q hq
  rw [Traversal.accept, Arena.isProcessed_markProcessed]
  rcases List.mem_cons.mp hq with rfl | hq
  · exact .inr ⟨hid, rfl⟩
  · exact .inl (h q hq)

/-- What is done after a traversal, if it has met no error. -/
def resume (next : Walk σ → Walk σ × Option Error) :
    Traversal σ × Option Error → Walk σ × Option Error
  | (t, some e) => (t.toWalk, some e)
  | (t, none) => next t.toWalk

section

variable (visit : Visitor σ) (registry : Registry) (registries : Table String Registry)

/-- The stack with `ids` on top is drained as a traversal of `ids` goes, and
then as the stack below is drained. -/
def Drains (root : NodeId) (t : Traversal σ) (ids : List NodeId)
    (r : Traversal σ × Option Error) : Prop :=
  t.Marked → r.1.Marked ∧
    ∀ stack, Walk.drain visit registry registries root t.toWalk (ids ++ stack) =
      resume (Walk.drain visit registry registries root · stack) r

variable {visit registry registries} {root id : NodeId} {t : Traversal σ}

/-- An unknown node ends the traversal. -/
theorem visitNode_unknown (hseen : ¬ (id ∈ registry.roots ∨ id ∈ t.visited))
    (hget : t.arena.get? id = none) :
    (visitNode visit registry registries root t id).1 = (t, some (.unknownNode id)) := by
  rw [visitNode, if_neg hseen]
  split
  · rfl
  · next d hd => simp [hget] at hd

/-- A known node is skipped if flagged, or else called. -/
theorem visitNode_known {d : Declaration} (hseen : ¬ (id ∈ registry.roots ∨ id ∈ t.visited))
    (hget : t.arena.get? id = some d) :
    (visitNode visit registry registries root t id).1 =
      if d.processed then (t.skip, none)
      else
        match visit ⟨t.arena, root, registry, registries⟩ id t.state with
        | (state, some e) => (t.refuse state, some e)
        | (state, none) =>
          (visitEach visit registry registries root (t.accept id state) d.children).1 := by
  rw [visitNode, if_neg hseen]
  split
  · next hd => simp [hget] at hd
  · next d' hd =>
    obtain rfl : d = d' := by simpa [hget] using hd
    split
    · rfl
    · split <;> rfl

/-- **The stack is what the recursion does next.** -/
theorem drains_visitEach (visit : Visitor σ) (registry : Registry)
    (registries : Table String Registry) (root : NodeId) (t : Traversal σ) (ids : List NodeId) :
    Drains visit registry registries root t ids
      (visitEach visit registry registries root t ids).1 := by
  -- along the recursion, with the same statement about a single node
  refine (visitNode.mutual_induct visit registry registries root
    (fun t id => Drains visit registry registries root t [id]
      (visitNode visit registry registries root t id).1)
    (fun t ids => Drains visit registry registries root t ids
      (visitEach visit registry registries root t ids).1)
    ?seen ?unknown ?flagged ?refused ?accepted ?done ?failed ?next).2 t ids
  case seen =>
    intro t id hseen hmarked
    rw [visitNode, if_pos hseen]
    refine ⟨hmarked, fun stack => ?_⟩
    by_cases hroot : id ∈ registry.roots
    · exact Walk.drain_root hroot stack
    · exact Walk.drain_flagged hroot (hmarked id (hseen.resolve_left hroot)) stack
  case unknown =>
    intro t id hseen hget hmarked
    rw [visitNode_unknown hseen hget]
    exact ⟨hmarked, Walk.drain_unknown (mt .inl hseen) hget⟩
  case flagged =>
    intro t id hseen d hget hflag hmarked
    rw [visitNode_known hseen hget, if_pos hflag]
    refine ⟨hmarked, fun stack => ?_⟩
    rw [List.singleton_append, Walk.drain_known (mt .inl hseen) hget, if_pos hflag]
    rfl
  case refused =>
    intro t id hseen d hget hflag state e hvisit hmarked
    rw [visitNode_known hseen hget, if_neg hflag, hvisit]
    refine ⟨hmarked, fun stack => ?_⟩
    rw [List.singleton_append, Walk.drain_known (mt .inl hseen) hget, if_neg hflag, hvisit]
    rfl
  case accepted =>
    intro t id hseen d hget hflag state hvisit ih hmarked
    rw [visitNode_known hseen hget, if_neg hflag, hvisit]
    obtain ⟨hmarked', hdrain⟩ := ih (hmarked.accept (Arena.valid_iff.mpr ⟨d, hget⟩) state)
    refine ⟨hmarked', fun stack => ?_⟩
    rw [List.singleton_append, Walk.drain_known (mt .inl hseen) hget, if_neg hflag, hvisit]
    exact hdrain stack
  case done =>
    intro t hmarked
    rw [visitEach]
    exact ⟨hmarked, fun stack => rfl⟩
  case failed =>
    intro t id rest u e h hvisit ih hmarked
    obtain ⟨hmarked', hdrain⟩ := ih hmarked
    rw [hvisit] at hmarked' hdrain
    rw [visitEach, hvisit]
    exact ⟨hmarked', fun stack => hdrain (rest ++ stack)⟩
  case next =>
    intro t id rest u h hvisit ih ihrest hmarked
    obtain ⟨hmarked', hdrain⟩ := ih hmarked
    rw [hvisit] at hmarked' hdrain
    obtain ⟨hmarked'', hrest⟩ := ihrest hmarked'
    rw [visitEach, hvisit]
    exact ⟨hmarked'', fun stack => (hdrain (rest ++ stack)).trans (hrest stack)⟩

end

/-! ## the whole walk -/

/-- Root by root, the stacks are drained as the recursion goes. -/
theorem below_eq_resume (visit : Visitor σ) (registry : Registry)
    (registries : Table String Registry) {t : Traversal σ} (hmarked : t.Marked)
    (roots : List NodeId) :
    Walk.below visit registry registries t.toWalk roots =
      resume (·, none) (visitBelow visit registry registries t roots) := by
  induction roots generalizing t with
  | nil => rfl
  | cons root roots ih =>
      rw [Walk.below, visitBelow]
      cases hget : t.arena.get? root with
      | none => rfl
      | some d =>
          obtain ⟨hmarked', hdrain⟩ :=
            drains_visitEach visit registry registries root t d.children hmarked
          have hstack := hdrain []
          rw [List.append_nil] at hstack
          simp only [hstack]
          cases hvisit : (visitEach visit registry registries root t d.children).1 with
          | mk u fault =>
              rw [hvisit] at hmarked'
              cases fault with
              | some e => rfl
              | none =>
                  simp only [resume, Walk.drain]
                  exact ih hmarked'

end Traversal

namespace Registry

variable {σ : Type}

/-- The walk of a registry is its recursive traversal. -/
theorem walk_eq_traverse (registry : Registry) (visit : Visitor σ)
    (registries : Table String Registry) (arena : Arena) (state : σ) :
    registry.walk visit registries arena state =
      registry.traverse visit registries arena state := by
  have hmarked : Traversal.Marked { arena, state } := fun id hid => absurd hid List.not_mem_nil
  rw [walk, Traversal.below_eq_resume visit registry registries hmarked, traverse]
  cases Traversal.visitBelow visit registry registries { arena, state } registry.roots with
  | mk t fault =>
      cases fault with
      | some e => rfl
      | none => rfl

/-- **The walk along a stack is the recursive walk.**  On every arena, also with
edges that lead nowhere, with every visitor and from every flags, both call the
visitor on the same nodes in the name of the same roots and in the same order,
and end with the same flags, counters and error, if there is one. -/
theorem walk_recursive (registry : Registry) (visit : Visitor σ)
    (registries : Table String Registry) (arena : Arena) (state : σ) :
    ∃ (w : Walk σ) (fault : Option Error) (log : List Walk.Call),
      registry.walk visit registries arena state = (w, fault) ∧
      registry.traverse visit registries arena state = (w, fault) ∧
      registry.walk visit.logged registries arena (state, []) =
        (⟨w.arena, (w.state, log), w.tally⟩, fault) ∧
      registry.traverse visit.logged registries arena (state, []) =
        (⟨w.arena, (w.state, log), w.tally⟩, fault) := by
  obtain ⟨log, hlogged, -⟩ := Walk.follow_logged visit registries { arena, state } []
    (Walk.route arena (registry.roots.map (.enter registry)))
  have hwalk : registry.walk visit.logged registries arena (state, []) =
      (⟨(registry.walk visit registries arena state).1.arena,
        ((registry.walk visit registries arena state).1.state, log),
        (registry.walk visit registries arena state).1.tally⟩,
        (registry.walk visit registries arena state).2) := by
    simp only [walk, Walk.below_eq_follow]
    exact hlogged
  cases hrun : registry.walk visit registries arena state with
  | mk w fault =>
      rw [hrun] at hwalk
      refine ⟨w, fault, log, rfl, ?_, hwalk, ?_⟩
      · rw [← walk_eq_traverse, hrun]
      · rw [← walk_eq_traverse, hwalk]

end Registry

end SchemaCatalog
