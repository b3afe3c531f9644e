import SchemaCatalog.Proofs.Walk.Tally

/-!
# SchemaCatalog.Proofs.Walk.Turns

How long a walk takes, and what its counters say.

`takeTurns` does the work of a walk in turns, a task at a time, and gives up
after a given number of them.  Each turn brings what is ahead down by one: a
node that is entered puts its edges on the list of tasks, but these are no
longer among the edges of the nodes that are not flagged (`Arena.edgesAhead`).
So a walk ends on every graph, after at most as many turns as there are roots,
edges out of roots and edges out of nodes that were not flagged before.

A walk that ends well has taken each edge out of a root and out of a node that
it has flagged, and has counted it.
-/

namespace SchemaCatalog

/-! ## edges that a walk may still have to take -/

namespace Arena

/-- The number of edges out of declarations that are not flagged. -/
def edgesAhead (a : Arena) : Nat :=
  (a.ids.map fun id => if a.isProcessed id then 0 else a.degree id).sum

/-- The ids of the declarations that are flagged in `b` but not in `a`. -/
def flaggedSince (b a : Arena) : List NodeId :=
  a.ids.filter fun id => !a.isProcessed id && b.isProcessed id

/-- A flag that is set takes the edges of its declaration away. -/
theorem edgesAhead_markProcessed {a : Arena} {id : NodeId} {d : Declaration}
    (h : a.get? id = some d) (hflag : d.processed = false) :
    (a.markProcessed id).edgesAhead + d.children.length = a.edgesAhead := by
  have hvalid : a.Valid id := valid_iff.mpr ⟨d, h⟩
  have hids : (a.markProcessed id).ids = a.ids := by
    rw [ids, ids, markProcessed, size_modify]
  have hmarked : (a.markProcessed id).isProcessed id = true :=
    (isProcessed_markProcessed a id id).mpr (.inr ⟨hvalid, rfl⟩)
  have hrest : ∀ q ∈ a.ids.erase id,
      (if (a.markProcessed id).isProcessed q then 0 else (a.markProcessed id).degree q) =
        if a.isProcessed q then 0 else a.degree q := by
    intro q hq
    have hne : q ≠ id := ((nodup_ids a).mem_erase_iff.mp hq).1
    have hsame : (a.markProcessed id).isProcessed q = a.isProcessed q := by
      rw [Bool.eq_iff_iff, isProcessed_markProcessed]
      simp [hne]
    rw [hsame, degree_markProcessed]
  rw [edgesAhead, edgesAhead, hids, ← List.sum_map_erase _ (mem_ids.mpr hvalid),
    ← List.sum_map_erase _ (mem_ids.mpr hvalid), List.map_congr_left hrest, if_pos hmarked,
    isProcessed_of_get? h, hflag, if_neg Bool.false_ne_true, degree_of_get? h]
  omega

end Arena

/-! ## turns -/

namespace Walk

variable {σ : Type}

/-- Does tasks one after the other, at most `n` of them; nothing if that is not
enough. -/
def takeTurns (visit : Visitor σ) (registries : Table String Registry) :
    Nat → Walk σ → List Task → Option (Walk σ × Option Error)
  | _, w, [] => some (w, none)
  | 0, _, _ :: _ => none
  | n + 1, w, .enter registry root :: tasks =>
    match w.arena.get? root with
    | none => some (w, some (.unknownNode root))
    | some d => takeTurns visit registries n w (Task.below registry root d ++ tasks)
  | n + 1, w, .take registry root id :: tasks =>
    if id ∈ registry.roots then
      takeTurns visit registries n { w with tally := w.tally.skip } tasks
    else
      match w.arena.get? id with
      | none => some (w, some (.unknownNode id))
      | some d =>
        if d.processed then takeTurns visit registries n { w with tally := w.tally.skip } tasks
        else
          match visit ⟨w.arena, root, registry, registries⟩ id w.state with
          | (state, some e) => some ({ w with state }, some e)
          | (state, none) =>
            takeTurns visit registries n
              { arena := w.arena.markProcessed id, state, tally := w.tally.process }
              (Task.below registry root d ++ tasks)

/-- The turns that a task is worth: itself, and the edges of a root. -/
def Task.turns (a : Arena) : Task → Nat
  | enter _ root => a.degree root + 1
  | take _ _ _ => 1

/-- Flags do not change the turns of a task. -/
theorem Task.turns_markProcessed (a : Arena) (id : NodeId) :
    Task.turns (a.markProcessed id) = Task.turns a := by
  funext t
  cases t with
  | enter registry root => rw [turns, turns, Arena.degree_markProcessed]
  | take registry root id => rfl

/-- The tasks below a node take a turn for each child. -/
theorem Task.sum_turns_below (a : Arena) (registry : Registry) (root : NodeId) (d : Declaration) :
    ((below registry root d).map (turns a)).sum = d.children.length := by
  rw [below, List.map_map]
  simp [Function.comp_def, turns]

/-- The turns that may still be ahead. -/
def turnsAhead (a : Arena) (tasks : List Task) : Nat :=
  (tasks.map (Task.turns a)).sum + a.edgesAhead

/-- Where a node is entered, one turn less is ahead. -/
theorem turnsAhead_accept {a : Arena} {id : NodeId} {d : Declaration} (h : a.get? id = some d)
    (hflag : d.processed = false) (registry : Registry) (root : NodeId) (tasks : List Task) :
    turnsAhead (a.markProcessed id) (Task.below registry root d ++ tasks) + 1 =
      turnsAhead a (.take registry root id :: tasks) := by
  have hedges := Arena.edgesAhead_markProcessed h hflag
  rw [turnsAhead, turnsAhead, List.map_append, List.sum_append, Task.sum_turns_below,
    Task.turns_markProcessed, List.map_cons, List.sum_cons, Task.turns]
  omega

/-- Entering a root takes a turn. -/
theorem turnsAhead_enter {a : Arena} {root : NodeId} {d : Declaration} (h : a.get? root = some d)
    (registry : Registry) (tasks : List Task) :
    turnsAhead a (Task.below registry root d ++ tasks) + 1 =
      turnsAhead a (.enter registry root :: tasks) := by
  rw [turnsAhead, turnsAhead, List.map_append, List.sum_append, Task.sum_turns_below,
    List.map_cons, List.sum_cons, Task.turns, Arena.degree_of_get? h]
  omega

/-- Skipping a node takes a turn. -/
theorem turnsAhead_skip (a : Arena) (registry : Registry) (root id : NodeId) (tasks : List Task) :
    turnsAhead a tasks + 1 = turnsAhead a (.take registry root id :: tasks) := by
  rw [turnsAhead, turnsAhead, List.map_cons, List.sum_cons, Task.turns]
  omega

/-- **Enough turns** do what the walk along the route of the tasks does. -/
theorem takeTurns_eq_follow (visit : Visitor σ) (registries : Table String Registry) {n : Nat}
    {w : Walk σ} {tasks : List Task} (h : turnsAhead w.arena tasks ≤ n) :
    takeTurns visit registries n w tasks =
      some (follow visit registries w (route w.arena tasks)) := by
  -- On the turns that are left: what is ahead of the rest of the tasks is one
  -- turn less in every case, so the bound is kept.
  induction n generalizing w tasks with
  | zero =>
      cases tasks with
      | nil => rw [takeTurns, route_nil, follow]
      | cons t tasks =>
          exfalso
          cases t <;> simp [turnsAhead, Task.turns] at h
  | succ n ih =>
      cases tasks with
      | nil => rw [takeTurns, route_nil, follow]
      | cons t tasks =>
          cases t with
          | enter registry root =>
              cases hget : w.arena.get? root with
              | none => rw [takeTurns, hget, route_enter_none hget, follow]
              | some d =>
                  have hturn := turnsAhead_enter hget registry tasks
                  rw [takeTurns, hget, route_enter_some hget]
                  exact ih (by omega)
          | take registry root id =>
              have hskip := turnsAhead_skip w.arena registry root id tasks
              have hrest : turnsAhead w.arena tasks ≤ n := by omega
              by_cases hroot : id ∈ registry.roots
              · rw [takeTurns, if_pos hroot, route_root hroot, follow]
                exact ih (w := { w with tally := w.tally.skip }) hrest
              cases hget : w.arena.get? id with
              | none =>
                  rw [takeTurns, if_neg hroot, hget, route_unknown hroot hget, follow]
              | some d =>
                  cases hflag : d.processed with
                  | true =>
                      rw [takeTurns, if_neg hroot, hget, route_flagged hroot hget hflag, follow]
                      simp only [hflag, if_true]
                      exact ih (w := { w with tally := w.tally.skip }) hrest
                  | false =>
                      have hturn := turnsAhead_accept hget hflag registry root tasks
                      have hbelow : turnsAhead (w.arena.markProcessed id)
                          (Task.below registry root d ++ tasks) ≤ n := by omega
                      rw [takeTurns, if_neg hroot, hget, route_call hroot hget hflag]
                      simp only [hflag, Bool.false_eq_true, if_false]
                      cases hv : visit ⟨w.arena, root, registry, registries⟩ id w.state with
                      | mk state fault =>
                          cases fault with
                          | some e => rw [follow_call_refused hv]
                          | none =>
                              rw [follow_call_accepted hv]
                              exact ih (w := ⟨w.arena.markProcessed id, state, w.tally.process⟩)
                                hbelow

/-! ## what the counters say -/

/-- A route that is followed to its end meets nothing unknown. -/
theorem unknown_not_mem_of_follow {visit : Visitor σ} {registries : Table String Registry}
    {w w' : Walk σ} {es : List Event} (h : follow visit registries w es = (w', none)) (id : NodeId) :
    Event.unknown id ∉ es := by
  intro hmem
  obtain ⟨before, after, rfl⟩ := List.append_of_mem hmem
  rw [follow_append] at h
  cases hbefore : follow visit registries w before with
  | mk w'' fault =>
      rw [hbefore] at h
      cases fault with
      | some e => simp at h
      | none => simp [follow] at h

/-- What a walk flags is what it has called, each once. -/
theorem perm_flaggedSince (a : Arena) (tasks : List Task) :
    ((a.markAll (called (route a tasks))).flaggedSince a).Perm (called (route a tasks)) := by
  have hflagged : ((a.markAll (called (route a tasks))).flaggedSince a).Nodup :=
    a.nodup_ids.filter _
  refine (List.perm_ext_iff_of_nodup hflagged (nodup_called_route a tasks)).mpr fun id => ?_
  rw [Arena.flaggedSince, List.mem_filter, Arena.mem_ids, Bool.and_eq_true, Bool.not_eq_true',
    Arena.isProcessed_markAll]
  constructor
  · rintro ⟨-, hbefore, hnow⟩
    exact (hnow.resolve_left (by simp [hbefore])).2
  · intro hcalled
    have hvalid := valid_of_mem_called_route hcalled
    exact ⟨hvalid, not_isProcessed_of_mem_called_route hcalled, .inr ⟨hvalid, hcalled⟩⟩

/-- Roots are worth a turn each and one for each edge. -/
theorem sum_turns_enter (a : Arena) (registry : Registry) (roots : List NodeId) :
    ((roots.map (Task.enter registry)).map (Task.turns a)).sum =
      roots.length + (roots.map a.degree).sum := by
  induction roots with
  | nil => rfl
  | cons root roots ih =>
      simp only [List.map_cons, List.sum_cons, List.length_cons, ih, Task.turns]
      omega

/-- The tasks of a registry have the edges out of its roots. -/
theorem sum_edges_enter (a : Arena) (registry : Registry) (roots : List NodeId) :
    ((roots.map (Task.enter registry)).map (Task.edges a)).sum = (roots.map a.degree).sum := by
  rw [List.map_map]
  rfl

end Walk

namespace Registry

open Walk

variable {σ : Type}

/-- **A walk ends and accounts for every edge.**  On every arena, with every
visitor and from every flags, it is done after as many turns as there are
roots, edges out of them and edges out of nodes that are not flagged.  If it
meets no error, then it has processed as many nodes as it has flagged, and has
processed or skipped as many as there are edges out of the roots and out of
the nodes that it has flagged. -/
theorem walk_accounts (registry : Registry) (visit : Visitor σ)
    (registries : Table String Registry) (arena : Arena) (state : σ) :
    (∀ n, registry.roots.length + (registry.roots.map arena.degree).sum + arena.edgesAhead ≤ n →
      takeTurns visit registries n { arena, state } (registry.roots.map (.enter registry)) =
        some (registry.walk visit registries arena state)) ∧
    ∀ w, registry.walk visit registries arena state = (w, none) →
      w.tally.processed = (w.arena.flaggedSince arena).length ∧
      w.tally.processed + w.tally.skipped =
        (registry.roots.map arena.degree).sum +
          ((w.arena.flaggedSince arena).map arena.degree).sum := by
  let start : Walk σ := { arena, state }
  let tasks : List Task := registry.roots.map (.enter registry)
  have hwalk : registry.walk visit registries arena state =
      follow visit registries start (route arena tasks) :=
    below_eq_follow visit registry registries start registry.roots
  constructor
  · intro n hn
    have hturns : turnsAhead start.arena tasks ≤ n := by
      rw [turnsAhead, sum_turns_enter]
      exact hn
    rw [hwalk]
    exact takeTurns_eq_follow visit registries hturns
  · intro w hw
    rw [hwalk] at hw
    have hprocessed : w.tally.processed = 0 + (calls (route arena tasks)).length :=
      processed_follow hw
    have htally : w.tally.processed + w.tally.skipped = 0 + 0 + (route arena tasks).length :=
      tally_follow hw
    have hevents := length_route (unknown_not_mem_of_follow hw)
    have hflagged := perm_flaggedSince arena tasks
    rw [← arena_follow hw] at hflagged
    have hlength := hflagged.length_eq
    have hdegrees := (hflagged.map arena.degree).sum_eq
    rw [called, List.length_map] at hlength
    rw [sum_edges_enter] at hevents
    omega

/-- A declaration that stands below a root twice and leads to itself, to the
root and to another one, which leads back.  A fourth one leads nowhere, but the
root does not lead to it. -/
def loopedArena : Arena where
  nodes := #[
    { kind := .schema, space := "urn:a", children := [⟨1⟩, ⟨1⟩, ⟨2⟩] },
    { kind := .group, space := "urn:a", children := [⟨1⟩, ⟨0⟩, ⟨2⟩] },
    { kind := .element, space := "urn:a", children := [⟨1⟩] },
    { kind := .element, space := "urn:a", children := [⟨9⟩] }]

/-- Two declarations are processed, and of seven edges five are skipped. -/
theorem walk_accounts_looped : ∃ (registry : Registry) (visit : Visitor Nat) (w : Walk Nat),
    registry.walk visit ∅ loopedArena 0 = (w, none) ∧
      w.arena.flaggedSince loopedArena = [⟨1⟩, ⟨2⟩] ∧ w.tally.processed = 2 ∧
      w.tally.processed + w.tally.skipped = 7 := by
  let registry : Registry := { targetSpace := "urn:a", roots := [⟨0⟩] }
  let visit : Visitor Nat := fun _ _ n => (n + 1, none)
  let w : Walk Nat := ⟨loopedArena.markAll [⟨1⟩, ⟨2⟩], 2, ⟨2, 5⟩⟩
  obtain ⟨hturns, hcounts⟩ := walk_accounts registry visit ∅ loopedArena 0
  have hwalk : some (registry.walk visit ∅ loopedArena 0) = some (w, none) :=
    (hturns 12 (by decide +kernel)).symm
  obtain ⟨hprocessed, hedges⟩ := hcounts w (Option.some.inj hwalk)
  have hflagged : w.arena.flaggedSince loopedArena = [⟨1⟩, ⟨2⟩] := by decide +kernel
  rw [hflagged] at hprocessed hedges
  exact ⟨registry, visit, w, Option.some.inj hwalk, hflagged, hprocessed, hedges⟩

end Registry

end SchemaCatalog
