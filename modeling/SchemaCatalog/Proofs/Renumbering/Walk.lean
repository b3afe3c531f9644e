import SchemaCatalog.Proofs.Renumbering.Registry
import SchemaCatalog.Proofs.Walk.Follow

/-!
# SchemaCatalog.Proofs.Renumbering.Walk

Walks under other numbers.  A route goes the same way in an arena that hosts
another one (`Walk.route_renumber`): there may be more declarations, but no edge
of the route leads to them.  A walk follows it in the same way if its visitor takes
numbers for nothing but numbers (`Visitor.Mirrors`); then both walks come equally
far and end with the same counters or with the same error, up to numbers
(`Walk.follow_renumber`).
-/

namespace SchemaCatalog

/-- The scope `y` is `x` with other numbers. -/
structure Scope.Mirrors (f : NodeId → NodeId) (x y : Scope) : Prop where
  arena : x.arena.Hosts f y.arena
  root : y.root = f x.root
  registry : y.registry = x.registry.renumber f
  registries : y.registries = x.registries.mapValues (Registry.renumber f)

/-- The visitors do the same under the numbers `f`, as far as `R` tells their states
apart. -/
def Visitor.Mirrors {σ τ : Type} (f : NodeId → NodeId) (R : σ → τ → Prop) (visit : Visitor σ)
    (visit' : Visitor τ) : Prop :=
  ∀ x y id state state', x.Mirrors f y → R state state' →
    R (visit x id state).1 (visit' y (f id) state').1 ∧
      (visit' y (f id) state').2 = (visit x id state).2.map (Error.renumber f)

namespace Walk

/-! ## routes -/

def Call.renumber (f : NodeId → NodeId) (c : Call) : Call :=
  ⟨f c.node, f c.root, c.registry.renumber f⟩

def Event.renumber (f : NodeId → NodeId) : Event → Event
  | skip => skip
  | call c => call (c.renumber f)
  | unknown id => unknown (f id)

def Task.renumber (f : NodeId → NodeId) : Task → Task
  | enter registry root => enter (registry.renumber f) (f root)
  | take registry root id => take (registry.renumber f) (f root) (f id)

section

variable {f : NodeId → NodeId}

/-- The tasks below a node commute with the renumbering. -/
theorem Task.below_renumber (f : NodeId → NodeId) (registry : Registry) (root : NodeId)
    (d : Declaration) :
    Task.below (registry.renumber f) (f root) (d.renumber f) =
      (Task.below registry root d).map (Task.renumber f) := by
  rw [Task.below, Task.below, Declaration.renumber, List.map_map, List.map_map]
  rfl

/-- **A route** goes the same way under any numbers. -/
theorem route_renumber {a b : Arena} (h : a.Hosts f b) (tasks : List Task) :
    route b (tasks.map (Task.renumber f)) = (route a tasks).map (Event.renumber f) := by
  induction a, tasks using route_induction generalizing b with
  | done a => simp
  | lost a registry root tasks hget ih =>
      rw [List.map_cons, Task.renumber, route_enter_none (h.get?_eq_none hget),
        route_enter_none hget, ih h]
      rfl
  | enter a registry root tasks d hget ih =>
      rw [List.map_cons, Task.renumber, route_enter_some (h.get?_eq_some hget),
        route_enter_some hget, Task.below_renumber, ← List.map_append, ih h]
  | root a registry root id tasks hr ih =>
      have hr' := (Registry.mem_roots_renumber h.injective).mpr hr
      rw [List.map_cons, Task.renumber, route_root hr', route_root hr, ih h]
      rfl
  | dangling a registry root id tasks hr hget ih =>
      have hr' := mt (Registry.mem_roots_renumber h.injective).mp hr
      rw [List.map_cons, Task.renumber, route_unknown hr' (h.get?_eq_none hget),
        route_unknown hr hget, ih h]
      rfl
  | flagged a registry root id tasks d hr hget hp ih =>
      have hr' := mt (Registry.mem_roots_renumber h.injective).mp hr
      rw [List.map_cons, Task.renumber, route_flagged hr' (h.get?_eq_some hget) hp,
        route_flagged hr hget hp, ih h]
      rfl
  | call a registry root id tasks d hr hget hp ih =>
      have hr' := mt (Registry.mem_roots_renumber h.injective).mp hr
      rw [List.map_cons, Task.renumber, route_call hr' (h.get?_eq_some hget) hp,
        route_call hr hget hp, Task.below_renumber, ← List.map_append, ih (h.markProcessed id)]
      rfl

/-- The tasks of the registries commute with the renumbering. -/
theorem enterAll_renumber (f : NodeId → NodeId) (registries : List Registry) :
    enterAll (registries.map (Registry.renumber f)) =
      (enterAll registries).map (Task.renumber f) := by
  rw [enterAll, enterAll, List.flatMap_map, List.map_flatMap]
  refine List.flatMap_congr fun r _ => ?_
  rw [Registry.renumber, List.map_map, List.map_map]
  rfl

/-! ## walks -/

variable {σ τ : Type} {R : σ → τ → Prop}

/-- The walk `w'` has come as far as `w`, with other numbers. -/
structure Mirrors (f : NodeId → NodeId) (R : σ → τ → Prop) (w : Walk σ) (w' : Walk τ) : Prop where
  arena : w.arena.Hosts f w'.arena
  state : R w.state w'.state
  tally : w'.tally = w.tally

/-- **A route is followed** equally far under any numbers. -/
theorem follow_renumber {visit : Visitor σ} {visit' : Visitor τ} (hvisit : visit.Mirrors f R visit')
    (registries : Table String Registry) {w : Walk σ} {w' : Walk τ} (hw : w.Mirrors f R w')
    (es : List Event) :
    (follow visit registries w es).1.Mirrors f R
        (follow visit' (registries.mapValues (Registry.renumber f)) w'
          (es.map (Event.renumber f))).1 ∧
      (follow visit' (registries.mapValues (Registry.renumber f)) w'
          (es.map (Event.renumber f))).2 =
        (follow visit registries w es).2.map (Error.renumber f) := by
  induction es generalizing w w' with
  | nil => exact ⟨hw, rfl⟩
  | cons event es ih =>
      cases event with
      | skip => exact ih ⟨hw.arena, hw.state, congrArg Tally.skip hw.tally⟩
      | unknown id => exact ⟨hw, rfl⟩
      | call c =>
          obtain ⟨hstate, hfault⟩ := hvisit ⟨w.arena, c.root, c.registry, registries⟩
            ⟨w'.arena, f c.root, c.registry.renumber f, registries.mapValues (Registry.renumber f)⟩
            c.node w.state w'.state ⟨hw.arena, rfl, rfl, rfl⟩ hw.state
          simp only [List.map_cons, Event.renumber]
          cases hv : visit ⟨w.arena, c.root, c.registry, registries⟩ c.node w.state with
          | mk state fault =>
              cases hv' : visit' ⟨w'.arena, f c.root, c.registry.renumber f,
                  registries.mapValues (Registry.renumber f)⟩ (f c.node) w'.state with
              | mk state' fault' =>
                  rw [hv, hv'] at hstate hfault
                  obtain rfl : fault' = fault.map (Error.renumber f) := hfault
                  cases fault with
                  | some e =>
                      rw [follow_call_refused hv, follow_call_refused (c := c.renumber f) hv']
                      exact ⟨⟨hw.arena, hstate, hw.tally⟩, rfl⟩
                  | none =>
                      rw [follow_call_accepted hv, follow_call_accepted (c := c.renumber f) hv']
                      exact ih ⟨hw.arena.markProcessed c.node, hstate,
                        congrArg Tally.process hw.tally⟩

end

end Walk

/-- Logs of visitors that do the same tell of the same calls. -/
theorem Visitor.Mirrors.logged {σ τ : Type} {f : NodeId → NodeId} {R : σ → τ → Prop}
    {visit : Visitor σ} {visit' : Visitor τ} (h : visit.Mirrors f R visit') :
    visit.logged.Mirrors f
      (fun p q => R p.1 q.1 ∧ q.2 = p.2.map (Walk.Call.renumber f)) visit'.logged := by
  rintro x y id ⟨state, log⟩ ⟨state', log'⟩ hscope ⟨hstate, hlog⟩
  obtain ⟨hnext, hfault⟩ := h x y id state state' hscope hstate
  refine ⟨⟨hnext, ?_⟩, hfault⟩
  simp only [Visitor.logged, hscope.root, hscope.registry, List.map_append] at hlog ⊢
  rw [hlog]
  rfl

end SchemaCatalog
