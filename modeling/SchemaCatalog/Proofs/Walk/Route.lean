import SchemaCatalog.Proofs.Arena
import SchemaCatalog.Walk

/-!
# SchemaCatalog.Proofs.Walk.Route

The route of a walk: which nodes it would call its visitor on, in order, if
every call were accepted.  A visitor sees the arena but can change it in no
way, so it has no influence on the route; it only decides how far the walk
gets (`SchemaCatalog.Proofs.Walk.Follow`).  What a walk calls, what it misses
and in which order is therefore a question about `route` alone.

A route starts from tasks, which are either roots to enter or edges to take.
The main statements say, of the route of some tasks from an arena,

* `route_append`: more tasks at the end make for more route at the end;
* `nodup_called_route`, `fresh_of_mem_calls_route`: each node is called once,
  and none that was flagged before;
* `leadsFresh_of_mem_calls_route`: every call goes to a node below its task,
  past no node that was flagged before;
* `settled_route`: afterwards, each task and each edge out of a called node
  has been dealt with;
* `calls_route_of_settled`: nothing is called if that was so before.
-/

namespace SchemaCatalog

namespace Walk

/-! ## calls, events, tasks -/

/-- One call of a visitor. -/
structure Call where
  node : NodeId
  /-- The document root that the node was reached from. -/
  root : NodeId
  /-- The registry whose roots were being walked. -/
  registry : Registry
  deriving DecidableEq

/-- What happens on a route. -/
inductive Event
  /-- An edge leads to a root or to a flagged node. -/
  | skip
  | call (c : Call)
  /-- A task names no declaration; a walk ends here. -/
  | unknown (id : NodeId)

/-- What is left to do. -/
inductive Task
  /-- Take the edges out of a root. -/
  | enter (registry : Registry) (root : NodeId)
  /-- Take an edge to `id` below a root. -/
  | take (registry : Registry) (root id : NodeId)

namespace Event

def call? : Event → Option Call
  | skip | unknown _ => none
  | call c => some c

end Event

def calls (events : List Event) : List Call := events.filterMap Event.call?

def called (events : List Event) : List NodeId := (calls events).map (·.node)

@[simp] theorem calls_nil : calls [] = [] := rfl

@[simp] theorem calls_skip (es : List Event) : calls (.skip :: es) = calls es := rfl

@[simp] theorem calls_unknown (id : NodeId) (es : List Event) :
    calls (.unknown id :: es) = calls es := rfl

@[simp] theorem calls_call (c : Call) (es : List Event) :
    calls (.call c :: es) = c :: calls es := rfl

@[simp] theorem calls_append (es fs : List Event) : calls (es ++ fs) = calls es ++ calls fs :=
  List.filterMap_append

@[simp] theorem called_nil : called [] = [] := rfl

@[simp] theorem called_skip (es : List Event) : called (.skip :: es) = called es := rfl

@[simp] theorem called_unknown (id : NodeId) (es : List Event) :
    called (.unknown id :: es) = called es := rfl

@[simp] theorem called_call (c : Call) (es : List Event) :
    called (.call c :: es) = c.node :: called es := rfl

@[simp] theorem called_append (es fs : List Event) :
    called (es ++ fs) = called es ++ called fs := by
  simp [called]

/-- The called nodes are those of the calls. -/
theorem mem_called {id : NodeId} {es : List Event} :
    id ∈ called es ↔ ∃ c ∈ calls es, c.node = id := by
  simp [called]

namespace Task

/-- Is the task a root to enter? -/
def isEnter : Task → Bool
  | enter _ _ => true
  | take _ _ _ => false

/-- The id that a task looks up. -/
def target : Task → NodeId
  | enter _ root => root
  | take _ _ id => id

/-- The tasks that the children of a declaration are. -/
def below (registry : Registry) (root : NodeId) (d : Declaration) : List Task :=
  d.children.map (take registry root)

@[simp] theorem countP_isEnter_below (registry : Registry) (root : NodeId) (d : Declaration) :
    (below registry root d).countP isEnter = 0 := by
  simp [below, isEnter]

/-- The tasks below a node take its children. -/
theorem mem_below {registry : Registry} {root : NodeId} {d : Declaration} {t : Task} :
    t ∈ below registry root d ↔ ∃ c ∈ d.children, take registry root c = t := by
  simp [below]

end Task

/-! ## the route -/

/-- The events of a walk that takes tasks in turn and whose visitor accepts
every node.  Tasks that name no declaration are passed over. -/
def route (a : Arena) : List Task → List Event
  | [] => []
  | .enter registry root :: tasks =>
    match a.get? root with
    | none => .unknown root :: route a tasks
    | some d => route a (Task.below registry root d ++ tasks)
  | .take registry root id :: tasks =>
    if id ∈ registry.roots then .skip :: route a tasks
    else
      match _known : a.get? id with
      | none => .unknown id :: route a tasks
      | some d =>
        if _flag : d.processed then .skip :: route a tasks
        else
          .call ⟨id, root, registry⟩ ::
            route (a.markProcessed id) (Task.below registry root d ++ tasks)
  termination_by tasks => (tasks.countP Task.isEnter, a.pending, tasks.length)
  decreasing_by
  all_goals simp only [List.countP_append, List.countP_cons, Task.countP_isEnter_below, Task.isEnter]
  · exact Prod.Lex.left _ _ (by simp)
  · exact Prod.Lex.left _ _ (by simp)
  · exact Prod.Lex.right _ (Prod.Lex.right _ (by simp))
  · exact Prod.Lex.right _ (Prod.Lex.right _ (by simp))
  · exact Prod.Lex.right _ (Prod.Lex.right _ (by simp))
  · rw [Nat.zero_add]
    exact Prod.Lex.right _ (Prod.Lex.left _ _
      (Arena.pending_markProcessed_lt _known (by simpa using _flag)))

section

variable {a : Arena} {registry : Registry} {root id : NodeId} {d : Declaration}
  {tasks : List Task}

@[simp] theorem route_nil : route a [] = [] := by
  rw [route]

/-- An unknown root is met as such. -/
theorem route_enter_none (h : a.get? root = none) :
    route a (.enter registry root :: tasks) = .unknown root :: route a tasks := by
  rw [route, h]

/-- A root is entered by taking its children. -/
theorem route_enter_some (h : a.get? root = some d) :
    route a (.enter registry root :: tasks) = route a (Task.below registry root d ++ tasks) := by
  rw [route, h]

/-- A root is skipped when it is taken. -/
theorem route_root (h : id ∈ registry.roots) :
    route a (.take registry root id :: tasks) = .skip :: route a tasks := by
  rw [route, if_pos h]

/-- An unknown node is met as such. -/
theorem route_unknown (hr : id ∉ registry.roots) (h : a.get? id = none) :
    route a (.take registry root id :: tasks) = .unknown id :: route a tasks := by
  rw [route, if_neg hr]
  split
  · rfl
  · next d hd => simp [h] at hd

/-- A flagged node is skipped. -/
theorem route_flagged (hr : id ∉ registry.roots) (h : a.get? id = some d)
    (hp : d.processed = true) :
    route a (.take registry root id :: tasks) = .skip :: route a tasks := by
  rw [route, if_neg hr]
  split
  · next hd => simp [h] at hd
  · next d' hd =>
    obtain rfl : d = d' := by simpa [h] using hd
    rw [dif_pos hp]

/-- Any other node is called, and its children are taken next. -/
theorem route_call (hr : id ∉ registry.roots) (h : a.get? id = some d)
    (hp : d.processed = false) :
    route a (.take registry root id :: tasks) =
      .call ⟨id, root, registry⟩ ::
        route (a.markProcessed id) (Task.below registry root d ++ tasks) := by
  rw [route, if_neg hr]
  split
  · next hd => simp [h] at hd
  · next d' hd =>
    obtain rfl : d = d' := by simpa [h] using hd
    rw [dif_neg (by simp [hp])]

end

/-- Induction along a route, one case for each thing that can happen to the
task in front. -/
theorem route_induction {motive : Arena → List Task → Prop}
    (done : ∀ a, motive a [])
    (lost : ∀ a registry root tasks, a.get? root = none → motive a tasks →
      motive a (.enter registry root :: tasks))
    (enter : ∀ a registry root tasks d, a.get? root = some d →
      motive a (Task.below registry root d ++ tasks) → motive a (.enter registry root :: tasks))
    (root : ∀ a registry root id tasks, id ∈ registry.roots → motive a tasks →
      motive a (.take registry root id :: tasks))
    (dangling : ∀ a registry root id tasks, id ∉ registry.roots → a.get? id = none →
      motive a tasks → motive a (.take registry root id :: tasks))
    (flagged : ∀ a registry root id tasks d, id ∉ registry.roots → a.get? id = some d →
      d.processed = true → motive a tasks → motive a (.take registry root id :: tasks))
    (call : ∀ a registry root id tasks d, id ∉ registry.roots → a.get? id = some d →
      d.processed = false →
      motive (a.markProcessed id) (Task.below registry root d ++ tasks) →
      motive a (.take registry root id :: tasks))
    (a : Arena) (tasks : List Task) : motive a tasks := by
  fun_induction route a tasks with
  | case1 a => exact done a
  | case2 a registry r tasks h ih => exact lost a registry r tasks h ih
  | case3 a registry r tasks d h ih => exact enter a registry r tasks d h ih
  | case4 a registry r id tasks h ih => exact root a registry r id tasks h ih
  | case5 a registry r id tasks hr h ih => exact dangling a registry r id tasks hr h ih
  | case6 a registry r id tasks hr d h hp ih => exact flagged a registry r id tasks d hr h hp ih
  | case7 a registry r id tasks hr d h hp ih =>
      exact call a registry r id tasks d hr h (by simpa using hp) ih

/-- **Composition**: tasks at the end are taken up where the others have left
the arena. -/
theorem route_append (a : Arena) (xs ys : List Task) :
    route a (xs ++ ys) =
      route a xs ++ route (a.markAll (called (route a xs))) ys := by
  induction a, xs using route_induction with
  | done a => simp
  | lost a registry root tasks h ih =>
      rw [List.cons_append, route_enter_none h, route_enter_none h, ih]
      simp
  | enter a registry root tasks d h ih =>
      rw [List.cons_append, route_enter_some h, route_enter_some h, ← List.append_assoc, ih]
  | root a registry root id tasks h ih =>
      rw [List.cons_append, route_root h, route_root h, ih]
      simp
  | dangling a registry root id tasks hr h ih =>
      rw [List.cons_append, route_unknown hr h, route_unknown hr h, ih]
      simp
  | flagged a registry root id tasks d hr h hp ih =>
      rw [List.cons_append, route_flagged hr h hp, route_flagged hr h hp, ih]
      simp
  | call a registry root id tasks d hr h hp ih =>
      rw [List.cons_append, route_call hr h hp, route_call hr h hp, ← List.append_assoc, ih]
      simp

/-! ## what a route calls -/

/-- A route calls on declarations that were not flagged before, and on no root
of the registry being walked. -/
theorem fresh_of_mem_calls_route {a : Arena} {tasks : List Task} {c : Call}
    (hc : c ∈ calls (route a tasks)) :
    (∃ d, a.get? c.node = some d ∧ d.processed = false) ∧ c.node ∉ c.registry.roots := by
  induction a, tasks using route_induction with
  | done a => simp at hc
  | lost a registry root tasks h ih =>
      rw [route_enter_none h] at hc
      exact ih hc
  | enter a registry root tasks d h ih =>
      rw [route_enter_some h] at hc
      exact ih hc
  | root a registry root id tasks h ih =>
      rw [route_root h] at hc
      exact ih hc
  | dangling a registry root id tasks hr h ih =>
      rw [route_unknown hr h] at hc
      exact ih hc
  | flagged a registry root id tasks d hr h hp ih =>
      rw [route_flagged hr h hp] at hc
      exact ih hc
  | call a registry root id tasks d hr h hp ih =>
      rw [route_call hr h hp, calls_call] at hc
      rcases List.mem_cons.mp hc with rfl | hc
      · exact ⟨⟨d, h, hp⟩, hr⟩
      · obtain ⟨⟨e, he, hep⟩, hroots⟩ := ih hc
        rw [Arena.get?_markProcessed] at he
        obtain ⟨e', he', rfl⟩ := Option.map_eq_some_iff.mp he
        refine ⟨⟨e', he', ?_⟩, hroots⟩
        simp only [Bool.or_eq_false_iff] at hep
        exact hep.1

/-- No flagged node is called. -/
theorem not_isProcessed_of_mem_called_route {a : Arena} {tasks : List Task} {id : NodeId}
    (h : id ∈ called (route a tasks)) : a.isProcessed id = false := by
  obtain ⟨c, hc, rfl⟩ := mem_called.mp h
  obtain ⟨⟨d, hd, hp⟩, -⟩ := fresh_of_mem_calls_route hc
  rw [Arena.isProcessed_of_get? hd, hp]

/-- Only declarations of the arena are called. -/
theorem valid_of_mem_called_route {a : Arena} {tasks : List Task} {id : NodeId}
    (h : id ∈ called (route a tasks)) : a.Valid id := by
  obtain ⟨c, hc, rfl⟩ := mem_called.mp h
  obtain ⟨⟨d, hd, -⟩, -⟩ := fresh_of_mem_calls_route hc
  exact Arena.valid_iff.mpr ⟨d, hd⟩

/-- **Once each**: no node is called twice on a route. -/
theorem nodup_called_route (a : Arena) (tasks : List Task) : (called (route a tasks)).Nodup := by
  induction a, tasks using route_induction with
  | done a => simp
  | lost a registry root tasks h ih => rwa [route_enter_none h, called_unknown]
  | enter a registry root tasks d h ih => rwa [route_enter_some h]
  | root a registry root id tasks h ih => rwa [route_root h, called_skip]
  | dangling a registry root id tasks hr h ih => rwa [route_unknown hr h, called_unknown]
  | flagged a registry root id tasks d hr h hp ih => rwa [route_flagged hr h hp, called_skip]
  | call a registry root id tasks d hr h hp ih =>
      rw [route_call hr h hp, called_call, List.nodup_cons]
      refine ⟨fun hmem => ?_, ih⟩
      have hfresh := not_isProcessed_of_mem_called_route hmem
      have hmarked : (a.markProcessed id).isProcessed id = true := by
        rw [Arena.isProcessed_markProcessed]
        exact .inr ⟨Arena.valid_iff.mpr ⟨d, h⟩, rfl⟩
      rw [hmarked] at hfresh
      contradiction

/-! ## where calls come from -/

open Relation (TransGen ReflTransGen)

/-- A call goes to a node at or below the edge of a task, on the task's terms. -/
def Task.Leads (a : Arena) (c : Call) : Task → Prop
  | enter registry root =>
    c.registry = registry ∧ c.root = root ∧ TransGen a.Edge root c.node
  | take registry root id =>
    c.registry = registry ∧ c.root = root ∧ ReflTransGen a.Edge id c.node

/-- A call goes to a node at or below the edge of a task, and no node on the way
there is flagged. -/
def Task.LeadsFresh (a : Arena) (c : Call) : Task → Prop
  | enter registry root =>
    c.registry = registry ∧ c.root = root ∧ TransGen a.FreshEdge root c.node
  | take registry root id =>
    c.registry = registry ∧ c.root = root ∧ a.isProcessed id = false ∧
      ReflTransGen a.FreshEdge id c.node

/-- A way through unflagged nodes is a way. -/
theorem Task.LeadsFresh.leads {a : Arena} {c : Call} {t : Task} (h : t.LeadsFresh a c) :
    t.Leads a c := by
  have hmono : ∀ p q, a.FreshEdge p q → a.Edge p q := fun _ _ h => h.1
  cases t with
  | enter registry root =>
      obtain ⟨hregistry, hroot, hpath⟩ := h
      exact ⟨hregistry, hroot, TransGen.mono hmono _ _ hpath⟩
  | take registry root id =>
      obtain ⟨hregistry, hroot, -, hpath⟩ := h
      exact ⟨hregistry, hroot, ReflTransGen.mono hmono _ _ hpath⟩

/-- A way that avoids one more flagged node was there before. -/
theorem Task.LeadsFresh.of_markProcessed {a : Arena} {id : NodeId} {c : Call} {t : Task}
    (h : t.LeadsFresh (a.markProcessed id) c) : t.LeadsFresh a c := by
  have hmono : ∀ p q, (a.markProcessed id).FreshEdge p q → a.FreshEdge p q :=
    fun _ _ => Arena.FreshEdge.of_markProcessed
  cases t with
  | enter registry root =>
      obtain ⟨hregistry, hroot, hpath⟩ := h
      exact ⟨hregistry, hroot, TransGen.mono hmono _ _ hpath⟩
  | take registry root n =>
      obtain ⟨hregistry, hroot, hfresh, hpath⟩ := h
      refine ⟨hregistry, hroot, ?_, ReflTransGen.mono hmono _ _ hpath⟩
      rw [← Bool.not_eq_true, Arena.isProcessed_markProcessed, not_or, Bool.not_eq_true] at hfresh
      exact hfresh.1

/-- A call that a child leads to comes from an edge of the parent. -/
theorem Task.leadsFresh_of_mem_below {a : Arena} {registry : Registry} {root p : NodeId}
    {d : Declaration} {c : Call} {t : Task} (hp : a.get? p = some d)
    (ht : t ∈ below registry root d) (h : t.LeadsFresh a c) :
    c.registry = registry ∧ c.root = root ∧ TransGen a.FreshEdge p c.node := by
  obtain ⟨n, hn, rfl⟩ := mem_below.mp ht
  obtain ⟨hregistry, hroot, hfresh, hpath⟩ := h
  exact ⟨hregistry, hroot, TransGen.head' ⟨⟨d, hp, hn⟩, hfresh⟩ hpath⟩

/-- **Soundness**: every call of a route goes to a node that one of its tasks
leads to, past no node that was flagged before. -/
theorem leadsFresh_of_mem_calls_route {a : Arena} {tasks : List Task} {c : Call}
    (hc : c ∈ calls (route a tasks)) : ∃ t ∈ tasks, t.LeadsFresh a c := by
  induction a, tasks using route_induction with
  | done a => simp at hc
  | lost a registry root tasks h ih =>
      rw [route_enter_none h] at hc
      obtain ⟨t, ht, hlead⟩ := ih hc
      exact ⟨t, List.mem_cons_of_mem _ ht, hlead⟩
  | enter a registry root tasks d h ih =>
      rw [route_enter_some h] at hc
      obtain ⟨t, ht, hlead⟩ := ih hc
      rcases List.mem_append.mp ht with ht | ht
      · exact ⟨_, List.mem_cons_self, Task.leadsFresh_of_mem_below h ht hlead⟩
      · exact ⟨t, List.mem_cons_of_mem _ ht, hlead⟩
  | root a registry root id tasks h ih =>
      rw [route_root h] at hc
      obtain ⟨t, ht, hlead⟩ := ih hc
      exact ⟨t, List.mem_cons_of_mem _ ht, hlead⟩
  | dangling a registry root id tasks hr h ih =>
      rw [route_unknown hr h] at hc
      obtain ⟨t, ht, hlead⟩ := ih hc
      exact ⟨t, List.mem_cons_of_mem _ ht, hlead⟩
  | flagged a registry root id tasks d hr h hp ih =>
      rw [route_flagged hr h hp] at hc
      obtain ⟨t, ht, hlead⟩ := ih hc
      exact ⟨t, List.mem_cons_of_mem _ ht, hlead⟩
  | call a registry root id tasks d hr h hp ih =>
      have hfresh : a.isProcessed id = false := by rw [Arena.isProcessed_of_get? h, hp]
      rw [route_call hr h hp, calls_call] at hc
      rcases List.mem_cons.mp hc with rfl | hc
      · exact ⟨_, List.mem_cons_self, rfl, rfl, hfresh, ReflTransGen.refl⟩
      · obtain ⟨t, ht, hlead⟩ := ih hc
        have hlead := hlead.of_markProcessed
        rcases List.mem_append.mp ht with ht | ht
        · obtain ⟨hregistry, hroot, hpath⟩ := Task.leadsFresh_of_mem_below h ht hlead
          exact ⟨_, List.mem_cons_self, hregistry, hroot, hfresh, hpath.to_reflTransGen⟩
        · exact ⟨t, List.mem_cons_of_mem _ ht, hlead⟩

/-- Each call is led to by one of the tasks. -/
theorem leads_of_mem_calls_route {a : Arena} {tasks : List Task} {c : Call}
    (hc : c ∈ calls (route a tasks)) : ∃ t ∈ tasks, t.Leads a c := by
  obtain ⟨t, ht, hlead⟩ := leadsFresh_of_mem_calls_route hc
  exact ⟨t, ht, hlead.leads⟩

/-! ## what a route leaves behind -/

/-- There is nothing to do for a task: an edge has been dealt with if it leads
to a root of the registry or to a flagged node, and a root if all its edges have. -/
def Task.Settled (a : Arena) : Task → Prop
  | enter registry root =>
    ∀ n, a.Edge root n → a.Valid n → n ∈ registry.roots ∨ a.isProcessed n = true
  | take registry _ id => a.Valid id → id ∈ registry.roots ∨ a.isProcessed id = true

/-- The edges out of a declaration are settled once its children are. -/
theorem Task.settled_below {a : Arena} {registry : Registry} {root p : NodeId} {d : Declaration}
    (hp : a.get? p = some d) :
    (∀ t ∈ below registry root d, t.Settled a) ↔
      ∀ n, a.Edge p n → (Task.take registry root n).Settled a := by
  constructor
  · rintro h n ⟨e, he, hn⟩
    obtain rfl : d = e := by simpa [hp] using he
    exact h _ (mem_below.mpr ⟨n, hn, rfl⟩)
  · intro h t ht
    obtain ⟨n, hn, rfl⟩ := mem_below.mp ht
    exact h n ⟨d, hp, hn⟩

/-- **Completeness**: afterwards every task is settled, and so is every edge
out of a node that was called. -/
theorem settled_route (a : Arena) (tasks : List Task) :
    (∀ t ∈ tasks, t.Settled (a.markAll (called (route a tasks)))) ∧
      ∀ c ∈ calls (route a tasks), ∀ n, a.Edge c.node n →
        (Task.take c.registry c.root n).Settled (a.markAll (called (route a tasks))) := by
  induction a, tasks using route_induction with
  | done a => simp
  | lost a registry root tasks h ih =>
      rw [route_enter_none h, called_unknown, calls_unknown, List.forall_mem_cons]
      refine ⟨⟨?_, ih.1⟩, ih.2⟩
      rintro n ⟨d, hd, -⟩
      simp [Arena.get?_markAll, h] at hd
  | enter a registry root tasks d h ih =>
      rw [route_enter_some h, List.forall_mem_cons]
      obtain ⟨htasks, hcalls⟩ := ih
      rw [List.forall_mem_append] at htasks
      refine ⟨⟨?_, htasks.2⟩, hcalls⟩
      intro n hn
      rw [Arena.edge_markAll] at hn
      obtain ⟨e, he, hmem⟩ := hn
      obtain rfl : d = e := by simpa [h] using he
      exact htasks.1 _ (Task.mem_below.mpr ⟨n, hmem, rfl⟩)
  | root a registry root id tasks h ih =>
      rw [route_root h, called_skip, calls_skip, List.forall_mem_cons]
      exact ⟨⟨fun _ => .inl h, ih.1⟩, ih.2⟩
  | dangling a registry root id tasks hr h ih =>
      rw [route_unknown hr h, called_unknown, calls_unknown, List.forall_mem_cons]
      refine ⟨⟨fun hvalid => ?_, ih.1⟩, ih.2⟩
      rw [Arena.valid_markAll] at hvalid
      exact absurd hvalid (Arena.get?_eq_none_iff.mp h)
  | flagged a registry root id tasks d hr h hp ih =>
      rw [route_flagged hr h hp, called_skip, calls_skip, List.forall_mem_cons]
      refine ⟨⟨fun _ => .inr ?_, ih.1⟩, ih.2⟩
      rw [Arena.isProcessed_markAll, Arena.isProcessed_of_get? h]
      exact .inl hp
  | call a registry root id tasks d hr h hp ih =>
      rw [route_call hr h hp, called_call, calls_call, Arena.markAll_cons, List.forall_mem_cons,
        List.forall_mem_cons]
      obtain ⟨htasks, hcalls⟩ := ih
      rw [List.forall_mem_append] at htasks
      refine ⟨⟨fun _ => .inr ?_, htasks.2⟩, fun n hn => ?_, fun c hc n hn => ?_⟩
      · rw [Arena.isProcessed_markAll, Arena.isProcessed_markProcessed]
        exact .inl (.inr ⟨Arena.valid_iff.mpr ⟨d, h⟩, rfl⟩)
      · obtain ⟨e, he, hmem⟩ := hn
        obtain rfl : d = e := by simpa [h] using he
        exact htasks.1 _ (Task.mem_below.mpr ⟨n, hmem, rfl⟩)
      · exact hcalls c hc n (by rwa [Arena.edge_markProcessed])

/-- **Quiescence**: a route with nothing to do calls nothing. -/
theorem calls_route_of_settled {a : Arena} {tasks : List Task}
    (hsettled : ∀ t ∈ tasks, t.Settled a) : calls (route a tasks) = [] := by
  induction a, tasks using route_induction with
  | done a => simp
  | lost a registry root tasks h ih =>
      rw [route_enter_none h, calls_unknown]
      exact ih fun t ht => hsettled t (List.mem_cons_of_mem _ ht)
  | enter a registry root tasks d h ih =>
      rw [route_enter_some h]
      rw [List.forall_mem_cons] at hsettled
      refine ih (List.forall_mem_append.mpr ⟨?_, hsettled.2⟩)
      exact (Task.settled_below h).mpr hsettled.1
  | root a registry root id tasks h ih =>
      rw [route_root h, calls_skip]
      exact ih fun t ht => hsettled t (List.mem_cons_of_mem _ ht)
  | dangling a registry root id tasks hr h ih =>
      rw [route_unknown hr h, calls_unknown]
      exact ih fun t ht => hsettled t (List.mem_cons_of_mem _ ht)
  | flagged a registry root id tasks d hr h hp ih =>
      rw [route_flagged hr h hp, calls_skip]
      exact ih fun t ht => hsettled t (List.mem_cons_of_mem _ ht)
  | call a registry root id tasks d hr h hp ih =>
      have hfront := hsettled _ List.mem_cons_self (Arena.valid_iff.mpr ⟨d, h⟩)
      rw [Arena.isProcessed_of_get? h, hp] at hfront
      simp [hr] at hfront

/-- A route through a closed arena meets nothing unknown. -/
theorem unknown_not_mem_route {a : Arena} {tasks : List Task} (hclosed : a.Closed)
    (hvalid : ∀ t ∈ tasks, a.Valid t.target) (id : NodeId) :
    Event.unknown id ∉ route a tasks := by
  have valid_below : ∀ {b : Arena} {registry root p d}, b.Closed → b.get? p = some d →
      ∀ t ∈ Task.below registry root d, b.Valid t.target := by
    intro b registry root p d hb hp t ht
    obtain ⟨n, hn, rfl⟩ := Task.mem_below.mp ht
    exact hb d (Arena.mem_nodes hp) n hn
  induction a, tasks using route_induction with
  | done a => simp
  | lost a registry root tasks h ih =>
      exact absurd (hvalid _ List.mem_cons_self) (Arena.get?_eq_none_iff.mp h)
  | enter a registry root tasks d h ih =>
      rw [route_enter_some h]
      rw [List.forall_mem_cons] at hvalid
      exact ih hclosed (List.forall_mem_append.mpr ⟨valid_below hclosed h, hvalid.2⟩)
  | root a registry root id tasks h ih =>
      rw [route_root h]
      simpa using ih hclosed fun t ht => hvalid t (List.mem_cons_of_mem _ ht)
  | dangling a registry root id tasks hr h ih =>
      exact absurd (hvalid _ List.mem_cons_self) (Arena.get?_eq_none_iff.mp h)
  | flagged a registry root id tasks d hr h hp ih =>
      rw [route_flagged hr h hp]
      simpa using ih hclosed fun t ht => hvalid t (List.mem_cons_of_mem _ ht)
  | call a registry root id tasks d hr h hp ih =>
      rw [route_call hr h hp]
      rw [List.forall_mem_cons] at hvalid
      have hrest : ∀ t ∈ Task.below registry root d ++ tasks, (a.markProcessed id).Valid t.target := by
        intro t ht
        rw [Arena.valid_markProcessed]
        exact List.forall_mem_append.mpr ⟨valid_below hclosed h, hvalid.2⟩ t ht
      simpa using ih (Arena.closed_markAll hclosed [id]) hrest

/-! ## the roots of registries -/

/-- The tasks of walking registries one after the other. -/
def enterAll (registries : List Registry) : List Task :=
  registries.flatMap fun r => r.roots.map (.enter r)

/-- The registries are entered at their roots. -/
theorem mem_enterAll {registries : List Registry} {t : Task} :
    t ∈ enterAll registries ↔ ∃ r ∈ registries, ∃ root ∈ r.roots, Task.enter r root = t := by
  simp [enterAll]

theorem enterAll_cons (r : Registry) (registries : List Registry) :
    enterAll (r :: registries) = enterAll [r] ++ enterAll registries := by
  simp [enterAll]

/-- **Nothing is lost**: every node that can be reached from a root of the
registries past no flagged node is itself such a root or is called.  A node
that is skipped is not entered, but then it is called elsewhere or its edges
are those of a root. -/
theorem root_or_called_of_freshPath {a : Arena} {registries : List Registry}
    (hclosed : a.Closed) {r : Registry} (hr : r ∈ registries)
    {root n : NodeId} (hroot : root ∈ r.roots) (hpath : TransGen a.FreshEdge root n) :
    (∃ r' ∈ registries, n ∈ r'.roots) ∨
      n ∈ called (route a (enterAll registries)) := by
  obtain ⟨htasks, hcalls⟩ := settled_route a (enterAll registries)
  -- what is dealt with now and was not flagged before is a root or was called
  have root_or_called : ∀ {r : Registry} {q : NodeId}, r ∈ registries → a.isProcessed q = false →
      q ∈ r.roots ∨ (a.markAll (called (route a (enterAll registries)))).isProcessed q = true →
      (∃ r' ∈ registries, q ∈ r'.roots) ∨ q ∈ called (route a (enterAll registries)) := by
    intro r q hr hfresh h
    rw [Arena.isProcessed_markAll, hfresh] at h
    rcases h with hq | hq
    · exact .inl ⟨r, hr, hq⟩
    · exact .inr (hq.resolve_left Bool.false_ne_true).2
  -- an edge out of a root leads to a root or to a called node
  have edge_of_root : ∀ {r p q}, r ∈ registries → p ∈ r.roots → a.FreshEdge p q →
      (∃ r' ∈ registries, q ∈ r'.roots) ∨ q ∈ called (route a (enterAll registries)) := by
    intro r p q hr hp hpq
    have h := htasks _ (mem_enterAll.mpr ⟨r, hr, p, hp, rfl⟩) q
    rw [Arena.edge_markAll, Arena.valid_markAll] at h
    exact root_or_called hr hpq.2 (h hpq.1 (hpq.1.valid_right hclosed))
  induction hpath with
  | single hpq => exact edge_of_root hr hroot hpq
  | tail _ hpq ih =>
      rcases ih with ⟨r', hr', hp⟩ | hp
      · exact edge_of_root hr' hp hpq
      · obtain ⟨c, hc, rfl⟩ := mem_called.mp hp
        have h := hcalls c hc _ hpq.1
        rw [Task.Settled, Arena.valid_markAll] at h
        obtain ⟨t, ht, hlead⟩ := leads_of_mem_calls_route hc
        obtain ⟨r', hr', root', -, rfl⟩ := mem_enterAll.mp ht
        rw [← hlead.1] at hr'
        exact root_or_called hr' hpq.2 (h (hpq.1.valid_right hclosed))

/-- If no node was flagged before, nothing below a root is lost. -/
theorem root_or_processed_of_transGen {a : Arena} {registries : List Registry}
    (hclosed : a.Closed) (hfresh : a.Unprocessed) {r : Registry} (hr : r ∈ registries)
    {root n : NodeId} (hroot : root ∈ r.roots) (hpath : TransGen a.Edge root n) :
    (∃ r' ∈ registries, n ∈ r'.roots) ∨
      n ∈ called (route a (enterAll registries)) := by
  have hmono : ∀ p q, a.Edge p q → a.FreshEdge p q :=
    fun _ q h => ⟨h, Arena.isProcessed_of_unprocessed hfresh q⟩
  exact root_or_called_of_freshPath hclosed hr hroot (TransGen.mono hmono _ _ hpath)

end Walk

end SchemaCatalog
