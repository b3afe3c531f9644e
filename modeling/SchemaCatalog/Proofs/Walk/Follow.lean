import SchemaCatalog.Proofs.Walk.Route
import SchemaCatalog.Session

/-!
# SchemaCatalog.Proofs.Walk.Follow

A walk follows its route.  `follow` calls a visitor along a list of events,
and `drain_eq_follow` up to `walkAll_eq_follow` say that every walk, from the
one below a single root to that of a whole session, is `follow` along the
route of its tasks.  What a visitor makes of a walk can then be proved by
induction on a list.

A *logged* visitor also writes down its calls.  Logging has no influence
(`follow_logged`), so a log of a walk tells what the bare visitor was called
on.
-/

namespace SchemaCatalog

namespace Walk

variable {σ : Type}

/-! ## following a route -/

/-- Calls a visitor along a route, until it refuses a node or the route leads
to no declaration. -/
def follow (visit : Visitor σ) (registries : Table String Registry) (w : Walk σ) :
    List Event → Walk σ × Option Error
  | [] => (w, none)
  | .skip :: es => follow visit registries { w with tally := w.tally.skip } es
  | .unknown id :: _ => (w, some (.unknownNode id))
  | .call c :: es =>
    match visit ⟨w.arena, c.root, c.registry, registries⟩ c.node w.state with
    | (state, some e) => ({ w with state }, some e)
    | (state, none) =>
      follow visit registries
        { arena := w.arena.markProcessed c.node, state, tally := w.tally.process } es

section

variable {visit : Visitor σ} {registries : Table String Registry} {w : Walk σ} {c : Call}
  {es : List Event}

/-- A call that is refused ends the walk. -/
theorem follow_call_refused {state : σ} {e : Error}
    (h : visit ⟨w.arena, c.root, c.registry, registries⟩ c.node w.state = (state, some e)) :
    follow visit registries w (.call c :: es) = ({ w with state }, some e) := by
  rw [follow, h]

/-- A call that is accepted is flagged and counted, and the walk goes on. -/
theorem follow_call_accepted {state : σ}
    (h : visit ⟨w.arena, c.root, c.registry, registries⟩ c.node w.state = (state, none)) :
    follow visit registries w (.call c :: es) =
      follow visit registries
        { arena := w.arena.markProcessed c.node, state, tally := w.tally.process } es := by
  rw [follow, h]

end

/-- The second part of a route is followed if the first part was followed to
its end. -/
theorem follow_append (visit : Visitor σ) (registries : Table String Registry) (w : Walk σ)
    (es fs : List Event) :
    follow visit registries w (es ++ fs) =
      match follow visit registries w es with
      | (w', some e) => (w', some e)
      | (w', none) => follow visit registries w' fs := by
  induction es generalizing w with
  | nil => rfl
  | cons event es ih =>
      cases event with
      | skip => exact ih _
      | unknown id => rfl
      | call c =>
          cases h : visit ⟨w.arena, c.root, c.registry, registries⟩ c.node w.state with
          | mk state fault =>
              cases fault with
              | none => rw [List.cons_append, follow_call_accepted h, follow_call_accepted h, ih]
              | some e => rw [List.cons_append, follow_call_refused h, follow_call_refused h]

/-- Where a call stands on a route. -/
theorem exists_append_of_calls {es : List Event} {before after : List Call} {c : Call}
    (h : calls es = before ++ c :: after) :
    ∃ front back, es = front ++ .call c :: back ∧ calls front = before := by
  induction es generalizing before with
  | nil => simp at h
  | cons event es ih =>
      have shift : calls es = before ++ c :: after → Event.call? event = none →
          ∃ front back, event :: es = front ++ .call c :: back ∧ calls front = before := by
        intro hes hevent
        obtain ⟨front, back, rfl, hfront⟩ := ih hes
        exact ⟨event :: front, back, rfl, by rw [calls, List.filterMap_cons_none hevent]; exact hfront⟩
      cases event with
      | skip => exact shift h rfl
      | unknown id => exact shift h rfl
      | call c' =>
          rw [calls_call] at h
          cases before with
          | nil =>
              obtain ⟨rfl, -⟩ := List.cons_eq_cons.mp h
              exact ⟨[], es, rfl, rfl⟩
          | cons b before =>
              obtain ⟨rfl, hes⟩ := List.cons_eq_cons.mp h
              obtain ⟨front, back, rfl, rfl⟩ := ih hes
              exact ⟨.call c' :: front, back, rfl, rfl⟩

/-- A route that is followed to its end leaves its nodes flagged. -/
theorem arena_follow {visit : Visitor σ} {registries : Table String Registry} {w w' : Walk σ}
    {es : List Event} (h : follow visit registries w es = (w', none)) :
    w'.arena = w.arena.markAll (called es) := by
  induction es generalizing w with
  | nil =>
      obtain rfl : w = w' := congrArg Prod.fst h
      rfl
  | cons event es ih =>
      cases event with
      | skip =>
          have hrest := ih h
          exact hrest
      | unknown id => simp [follow] at h
      | call c =>
          cases hv : visit ⟨w.arena, c.root, c.registry, registries⟩ c.node w.state with
          | mk state fault =>
              cases fault with
              | none =>
                  rw [follow_call_accepted hv] at h
                  exact ih h
              | some e => simp [follow_call_refused hv] at h

/-- However far a route is followed, flags are all that changes in the arena. -/
theorem exists_arena_follow (visit : Visitor σ) (registries : Table String Registry) (w : Walk σ)
    (es : List Event) :
    ∃ ids, (follow visit registries w es).1.arena = w.arena.markAll ids := by
  induction es generalizing w with
  | nil => exact ⟨[], rfl⟩
  | cons event es ih =>
      cases event with
      | skip => exact ih { w with tally := w.tally.skip }
      | unknown id => exact ⟨[], rfl⟩
      | call c =>
          cases hv : visit ⟨w.arena, c.root, c.registry, registries⟩ c.node w.state with
          | mk state fault =>
              cases fault with
              | some e =>
                  rw [follow_call_refused hv]
                  exact ⟨[], rfl⟩
              | none =>
                  rw [follow_call_accepted hv]
                  obtain ⟨ids, hids⟩ :=
                    ih ⟨w.arena.markProcessed c.node, state, w.tally.process⟩
                  exact ⟨c.node :: ids, hids⟩

/-- A route that is followed to its end has as many accepted nodes as calls. -/
theorem processed_follow {visit : Visitor σ} {registries : Table String Registry} {w w' : Walk σ}
    {es : List Event} (h : follow visit registries w es = (w', none)) :
    w'.tally.processed = w.tally.processed + (calls es).length := by
  induction es generalizing w with
  | nil =>
      obtain rfl : w = w' := congrArg Prod.fst h
      rfl
  | cons event es ih =>
      cases event with
      | skip =>
          have hrest := ih h
          exact hrest
      | unknown id => simp [follow] at h
      | call c =>
          cases hv : visit ⟨w.arena, c.root, c.registry, registries⟩ c.node w.state with
          | mk state fault =>
              cases fault with
              | none =>
                  rw [follow_call_accepted hv] at h
                  have hrest := ih h
                  simp only [Tally.process] at hrest
                  rw [hrest, calls_call, List.length_cons]
                  omega
              | some e => simp [follow_call_refused hv] at h

/-- A route is followed to its end if it leads nowhere unknown and none of its
nodes is refused. -/
theorem follow_eq_none {visit : Visitor σ} {registries : Table String Registry} {w : Walk σ}
    {es : List Event} (hknown : ∀ id, Event.unknown id ∉ es)
    (haccept : ∀ c ∈ calls es, ∀ ids state,
      (visit ⟨w.arena.markAll ids, c.root, c.registry, registries⟩ c.node state).2 = none) :
    (follow visit registries w es).2 = none := by
  induction es generalizing w with
  | nil => rfl
  | cons event es ih =>
      have hknown' : ∀ id, Event.unknown id ∉ es :=
        fun id h => hknown id (List.mem_cons_of_mem _ h)
      cases event with
      | skip => exact ih hknown' haccept
      | unknown id => exact absurd List.mem_cons_self (hknown id)
      | call c =>
          rw [calls_call, List.forall_mem_cons] at haccept
          have hv := haccept.1 [] w.state
          rw [Arena.markAll_nil] at hv
          rw [follow_call_accepted (Prod.ext rfl hv)]
          exact ih hknown' fun c' hc' ids => haccept.2 c' hc' (c.node :: ids)

/-! ## walks follow their routes -/

/-- The stack of a root is followed along its route. -/
theorem drain_eq_follow (visit : Visitor σ) (registry : Registry)
    (registries : Table String Registry) (root : NodeId) (w : Walk σ) (stack : List NodeId) :
    drain visit registry registries root w stack =
      follow visit registries w (route w.arena (stack.map (.take registry root))) := by
  fun_induction drain visit registry registries root w stack with
  | case1 w => rw [List.map_nil, route_nil, follow]
  | case2 w id stack hroot ih => rw [List.map_cons, route_root hroot, follow, ih]
  | case3 w id stack hroot hget => rw [List.map_cons, route_unknown hroot hget, follow]
  | case4 w id stack hroot d hget hflag ih =>
      rw [List.map_cons, route_flagged hroot hget hflag, follow, ih]
  | case5 w id stack hroot d hget hflag state e hv =>
      rw [List.map_cons, route_call hroot hget (by simpa using hflag), follow_call_refused hv]
  | case6 w id stack hroot d hget hflag state hv ih =>
      rw [List.map_cons, route_call hroot hget (by simpa using hflag), follow_call_accepted hv, ih,
        List.map_append]
      rfl

/-- The roots of a registry are followed along their route. -/
theorem below_eq_follow (visit : Visitor σ) (registry : Registry)
    (registries : Table String Registry) (w : Walk σ) (roots : List NodeId) :
    below visit registry registries w roots =
      follow visit registries w (route w.arena (roots.map (.enter registry))) := by
  induction roots generalizing w with
  | nil => rw [List.map_nil, route_nil, follow, below]
  | cons root roots ih =>
      rw [List.map_cons, below]
      cases hget : w.arena.get? root with
      | none => simp only [route_enter_none hget, follow]
      | some d =>
          simp only [route_enter_some hget, route_append, follow_append, drain_eq_follow]
          rw [Task.below]
          cases hfirst : follow visit registries w
              (route w.arena (d.children.map (.take registry root))) with
          | mk w' fault =>
              cases fault with
              | some e => rfl
              | none => simp only [ih, arena_follow hfirst]

/-- Registries in turn are followed along their route. -/
theorem through_eq_follow (visit : Visitor σ) (registries : Table String Registry) (w : Walk σ)
    (rs : List Registry) :
    through visit registries w rs =
      follow visit registries w (route w.arena (enterAll rs)) := by
  induction rs generalizing w with
  | nil => rw [through, enterAll, List.flatMap_nil, route_nil, follow]
  | cons r rs ih =>
      rw [through, below_eq_follow, enterAll, List.flatMap_cons, route_append, follow_append]
      cases hfirst : follow visit registries w (route w.arena (r.roots.map (.enter r))) with
      | mk w' fault =>
          cases fault with
          | some e => rfl
          | none => simp only [ih, arena_follow hfirst, enterAll]

/-! ## logs -/

end Walk

/-- A visitor that also writes down each call before it answers. -/
def Visitor.logged {σ : Type} (visit : Visitor σ) : Visitor (σ × List Walk.Call) :=
  fun scope id (state, log) =>
    let (state, fault) := visit scope id state
    ((state, log ++ [⟨id, scope.root, scope.registry⟩]), fault)

/-- A visitor that refuses no node. -/
def Visitor.Accepts {σ : Type} (visit : Visitor σ) : Prop :=
  ∀ scope id state, (visit scope id state).2 = none

namespace Walk

variable {σ : Type}

/-- **Logging has no influence**: the walk goes as without it, and a walk that
ends well has logged the calls of its route. -/
theorem follow_logged (visit : Visitor σ) (registries : Table String Registry)
    (w : Walk σ) (log : List Call) (es : List Event) :
    ∃ more, follow visit.logged registries ⟨w.arena, (w.state, log), w.tally⟩ es =
        (⟨(follow visit registries w es).1.arena,
          ((follow visit registries w es).1.state, log ++ more),
          (follow visit registries w es).1.tally⟩, (follow visit registries w es).2) ∧
      ((follow visit registries w es).2 = none → more = calls es) := by
  induction es generalizing w log with
  | nil => exact ⟨[], by simp [follow], fun _ => rfl⟩
  | cons event es ih =>
      cases event with
      | skip => exact ih { w with tally := w.tally.skip } log
      | unknown id => exact ⟨[], by simp [follow], fun h => by simp [follow] at h⟩
      | call c =>
          cases hv : visit ⟨w.arena, c.root, c.registry, registries⟩ c.node w.state with
          | mk state fault =>
              have hlogged : visit.logged ⟨w.arena, c.root, c.registry, registries⟩ c.node
                  (w.state, log) = ((state, log ++ [c]), fault) := by
                simp only [Visitor.logged, hv]
              cases fault with
              | some e =>
                  refine ⟨[c], ?_, fun h => by simp [follow_call_refused hv] at h⟩
                  rw [follow_call_refused hlogged, follow_call_refused hv]
              | none =>
                  rw [follow_call_accepted hv, follow_call_accepted hlogged]
                  obtain ⟨more, heq, hmore⟩ := ih
                    ⟨w.arena.markProcessed c.node, state, w.tally.process⟩ (log ++ [c])
                  refine ⟨c :: more, ?_, fun h => by rw [hmore h, calls_call]⟩
                  rw [heq, List.append_assoc, List.singleton_append]

/-- **A walk that fails** on a known route does so at the call that it logged
last, and has flagged the nodes of the calls before. -/
theorem follow_refused {visit : Visitor σ} {registries : Table String Registry} {w w' : Walk σ}
    {es : List Event} {e : Error} (hknown : ∀ id, Event.unknown id ∉ es)
    (h : follow visit registries w es = (w', some e)) (log : List Call) :
    ∃ before c after, calls es = before ++ c :: after ∧
      w'.arena = w.arena.markAll (before.map (·.node)) ∧
      follow visit.logged registries ⟨w.arena, (w.state, log), w.tally⟩ es =
        (⟨w'.arena, (w'.state, log ++ (before ++ [c])), w'.tally⟩, some e) := by
  induction es generalizing w log with
  | nil => simp [follow] at h
  | cons event es ih =>
      have hknown' : ∀ id, Event.unknown id ∉ es :=
        fun id h => hknown id (List.mem_cons_of_mem _ h)
      cases event with
      | skip => exact ih (w := { w with tally := w.tally.skip }) hknown' h log
      | unknown id => exact absurd List.mem_cons_self (hknown id)
      | call c =>
          cases hv : visit ⟨w.arena, c.root, c.registry, registries⟩ c.node w.state with
          | mk state fault =>
              have hlogged : visit.logged ⟨w.arena, c.root, c.registry, registries⟩ c.node
                  (w.state, log) = ((state, log ++ [c]), fault) := by
                simp only [Visitor.logged, hv]
              cases fault with
              | some e' =>
                  rw [follow_call_refused hv, Prod.mk.injEq, Option.some.injEq] at h
                  obtain ⟨rfl, rfl⟩ := h
                  refine ⟨[], c, calls es, rfl, rfl, ?_⟩
                  rw [follow_call_refused hlogged]
                  rfl
              | none =>
                  rw [follow_call_accepted hv] at h
                  obtain ⟨before, c', after, hcalls, harena, hrest⟩ :=
                    ih hknown' h (log ++ [c])
                  refine ⟨c :: before, c', after, ?_, harena, ?_⟩
                  · rw [calls_call, hcalls, List.cons_append]
                  · rw [follow_call_accepted hlogged, hrest]
                    simp

end Walk

/-! ## walks of a session -/

namespace Session

variable {σ : Type}

/-- What a walk makes of a session. -/
def outcome (s : Session) (p : Walk σ × Option Error) : Session × σ × Except Error Tally :=
  ({ s with arena := p.1.arena }, p.1.state,
    match p.2 with | some e => .error e | none => .ok p.1.tally)

/-- The session with the flags of some declarations set. -/
def marked (s : Session) (ids : List NodeId) : Session := { s with arena := s.arena.markAll ids }

/-- The route of a walk of the whole session. -/
def itinerary (s : Session) : List Walk.Event :=
  Walk.route s.arena (Walk.enterAll s.registries.values)

/-- A walk of the session follows its itinerary. -/
theorem walkAll_eq_follow (s : Session) (visit : Visitor σ) (state : σ) :
    s.walkAll visit state =
      s.outcome (Walk.follow visit s.registries { arena := s.arena, state } s.itinerary) := by
  rw [walkAll, Walk.through_eq_follow]
  rfl

/-- A walk that ends well has been along its whole route, and that is what its
log says. -/
theorem walkAll_logged {s s' : Session} {visit : Visitor σ} {state state' : σ} {tally : Tally}
    (h : s.walkAll visit state = (s', state', .ok tally)) :
    s.walkAll visit.logged (state, []) = (s', (state', Walk.calls s.itinerary), .ok tally) := by
  obtain ⟨more, hlogged, hmore⟩ :=
    Walk.follow_logged visit s.registries { arena := s.arena, state } [] s.itinerary
  rw [walkAll_eq_follow] at h ⊢
  rw [hlogged]
  cases hfollow : Walk.follow visit s.registries { arena := s.arena, state } s.itinerary with
  | mk w fault =>
      rw [hfollow] at h hmore
      cases fault with
      | some e => simp [outcome] at h
      | none =>
          simp only [outcome, Prod.mk.injEq] at h
          obtain ⟨hs, hstate, htally⟩ := h
          simp only [outcome, hmore rfl, hs, hstate, htally, List.nil_append]

/-- A walk neither reads nor writes notes. -/
theorem walkAll_withNotes (s : Session) (notes : Diagnostics) (visit : Visitor σ) (state : σ) :
    ({ s with diagnostics := notes } : Session).walkAll visit state =
      ({ (s.walkAll visit state).1 with diagnostics := notes }, (s.walkAll visit state).2) :=
  rfl

/-- A walk of a namespace follows the route of its registry. -/
theorem walkSpace_eq_follow {s : Session} {space : String} {r : Registry}
    (h : s.registries.get? space = some r) (visit : Visitor σ) (state : σ) :
    s.walkSpace space visit state =
      let o := s.outcome (Walk.follow visit s.registries { arena := s.arena, state }
        (Walk.route s.arena (Walk.enterAll [r])))
      (o.1, o.2.1, o.2.2.map some) := by
  simp only [walkSpace, h, Registry.walk, Walk.below_eq_follow, Walk.enterAll, List.flatMap_cons,
    List.flatMap_nil, List.append_nil]
  cases Walk.follow visit s.registries { arena := s.arena, state }
    (Walk.route s.arena (r.roots.map (.enter r))) with
  | mk w fault =>
      cases fault with
      | none => rfl
      | some e => rfl

/-- A walk of the session changes flags and nothing else. -/
theorem exists_walkAll_fst (s : Session) (visit : Visitor σ) (state : σ) :
    ∃ ids, (s.walkAll visit state).1 = s.marked ids := by
  rw [walkAll_eq_follow]
  obtain ⟨ids, hids⟩ := Walk.exists_arena_follow visit s.registries { arena := s.arena, state }
    s.itinerary
  exact ⟨ids, by rw [outcome, hids, marked]⟩

/-- So does a walk of one namespace. -/
theorem exists_walkSpace_fst (s : Session) (space : String) (visit : Visitor σ) (state : σ) :
    ∃ ids, (s.walkSpace space visit state).1 = s.marked ids := by
  cases h : s.registries.get? space with
  | none => exact ⟨[], by simp [walkSpace, h, marked]⟩
  | some r =>
      rw [walkSpace_eq_follow h]
      obtain ⟨ids, hids⟩ := Walk.exists_arena_follow visit s.registries { arena := s.arena, state }
        (Walk.route s.arena (Walk.enterAll [r]))
      exact ⟨ids, by simp only [outcome, hids, marked]⟩

end Session

end SchemaCatalog
