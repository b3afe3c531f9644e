import SchemaCatalog.Proofs.Fragment.Linking
import SchemaCatalog.Proofs.Walk.Retry

/-!
# SchemaCatalog.Proofs.Walk.History

What visitors have answered in the course of a session, over any number of
walks, and what the flags have to do with it.  A *witnessed* visitor writes
down every call with the arena that it was shown and the answer that it gave;
like logging, this has no influence (`Walk.follow_witnessed`).

* `Walk.Account`: what the answers of one walk say about the arena, at each
  call and at the end, and about the failure if the walk has failed;
* `Session.Run`: any sequence of operations, with all answers given in it;
* `Session.recorded_run`: the flags are a record of the accepting answers;
* `Session.flags_exact`: hence no node is accepted twice, none is called that
  is flagged, no flag is cleared, and a walk that fails leaves no trace but
  the flags of the nodes that it had accepted.
-/

namespace SchemaCatalog

namespace Walk

/-! ## answers -/

/-- One call of a visitor with what came of it. -/
structure Answer where
  call : Call
  /-- The arena that the visitor was shown. -/
  seen : Arena
  /-- Why the node was refused, if it was. -/
  fault : Option Error

/-- The nodes that were accepted, in order. -/
def accepted (answers : List Answer) : List NodeId :=
  (answers.filter (·.fault.isNone)).map (·.call.node)

@[simp] theorem accepted_nil : accepted [] = [] := rfl

/-- A refused call is not accepted. -/
theorem accepted_cons_refused {x : Answer} {e : Error} (h : x.fault = some e)
    (answers : List Answer) : accepted (x :: answers) = accepted answers := by
  simp [accepted, h]

@[simp] theorem accepted_append (answers more : List Answer) :
    accepted (answers ++ more) = accepted answers ++ accepted more := by
  simp [accepted]

/-- The accepted nodes are called nodes, in the order of the calls. -/
theorem accepted_sublist (answers : List Answer) :
    (accepted answers).Sublist (answers.map (·.call.node)) :=
  List.filter_sublist.map _

end Walk

/-- A visitor that also writes down each call with what it was shown and what it
answered. -/
def Visitor.witnessed {σ : Type} (visit : Visitor σ) : Visitor (σ × List Walk.Answer) :=
  fun scope id (state, answers) =>
    let (state, fault) := visit scope id state
    ((state, answers ++ [⟨⟨id, scope.root, scope.registry⟩, scope.arena, fault⟩]), fault)

namespace Walk

/-- The node at which a walk of `a` has failed with `e`: the one that was
refused last, or one that does not exist. -/
inductive FailedAt (a : Arena) (answers : List Answer) (e : Error) : NodeId → Prop
  | refused {before : List Answer} {x : Answer} (h : answers = before ++ [x])
    (hfault : x.fault = some e) (hbefore : ∀ y ∈ before, y.fault = none) :
    FailedAt a answers e x.call.node
  | unknown {id : NodeId} (herror : e = .unknownNode id) (hid : ¬ a.Valid id)
    (hall : ∀ y ∈ answers, y.fault = none) : FailedAt a answers e id

/-- What the answers of a walk along some events tell of it: which arena each
visitor was shown, and where the walk has left the arena `b` and how. -/
structure Account (a : Arena) (es : List Event) (answers : List Answer) (b : Arena)
    (fault : Option Error) : Prop where
  arena : b = a.markAll (accepted answers)
  calls : answers.map (·.call) <+: calls es
  seen : ∀ before x after, answers = before ++ x :: after → x.seen = a.markAll (accepted before)
  failed : ∀ e, fault = some e → ∃ id, FailedAt a answers e id

section

variable {a b : Arena} {es : List Event} {answers : List Answer} {c : Call}

/-- A walk that has nothing ahead of it has answered no call. -/
theorem Account.nil (a : Arena) (es : List Event) : Account a es [] a none where
  arena := rfl
  calls := List.nil_prefix
  seen := by
    intro before x after h
    simp at h
  failed := by
    intro e h
    contradiction

/-- A walk ends where it meets no declaration. -/
theorem Account.unknown {id : NodeId} (hid : ¬ a.Valid id) (es : List Event) :
    Account a es [] a (some (.unknownNode id)) where
  arena := rfl
  calls := List.nil_prefix
  seen := by
    intro before x after h
    simp at h
  failed := by
    intro e h
    exact ⟨id, .unknown (Option.some.inj h).symm hid (by simp)⟩

/-- A walk ends where a node is refused. -/
theorem Account.refused (a : Arena) (c : Call) (e : Error) (es : List Event) :
    Account a (.call c :: es) [⟨c, a, some e⟩] a (some e) where
  arena := rfl
  calls := by simp
  seen := by
    intro before x after h
    cases before with
    | nil =>
        obtain ⟨rfl, -⟩ := List.cons_eq_cons.mp h
        rfl
    | cons y before => simp at h
  failed := by
    intro e' h
    exact ⟨c.node, .refused (List.nil_append _).symm h (by simp)⟩

/-- After a node was accepted, the walk goes on with its flag set. -/
theorem Account.accept {fault : Option Error}
    (h : Account (a.markProcessed c.node) es answers b fault) :
    Account a (.call c :: es) (⟨c, a, none⟩ :: answers) b fault where
  arena := h.arena
  calls := by
    rw [List.map_cons, calls_call]
    exact List.cons_prefix_cons.mpr ⟨rfl, h.calls⟩
  seen := by
    intro before x after hsplit
    cases before with
    | nil =>
        obtain ⟨rfl, -⟩ := List.cons_eq_cons.mp hsplit
        rfl
    | cons y before =>
        obtain ⟨rfl, hrest⟩ := List.cons_eq_cons.mp hsplit
        exact h.seen before x after hrest
  failed := by
    intro e hfault
    obtain ⟨id, hid⟩ := h.failed e hfault
    cases hid with
    | @refused before x hsplit hx hbefore =>
        have hcons : ⟨c, a, none⟩ :: answers = (⟨c, a, none⟩ :: before) ++ [x] := by
          rw [hsplit, List.cons_append]
        exact ⟨_, .refused hcons hx (List.forall_mem_cons.mpr ⟨rfl, hbefore⟩)⟩
    | unknown herror hid hall =>
        rw [Arena.valid_markProcessed] at hid
        exact ⟨id, .unknown herror hid (List.forall_mem_cons.mpr ⟨rfl, hall⟩)⟩

theorem Account.skip {fault : Option Error} (h : Account a es answers b fault) :
    Account a (.skip :: es) answers b fault :=
  ⟨h.arena, h.calls, h.seen, h.failed⟩

end

/-- **Witnessing has no influence**: the walk goes as without it, and its
answers account for what it does to the arena. -/
theorem follow_witnessed {σ : Type} (visit : Visitor σ) (registries : Table String Registry)
    (w : Walk σ) (log : List Answer) (es : List Event)
    (hlost : ∀ id, Event.unknown id ∈ es → ¬ w.arena.Valid id) :
    ∃ answers, follow visit.witnessed registries ⟨w.arena, (w.state, log), w.tally⟩ es =
        (⟨(follow visit registries w es).1.arena,
          ((follow visit registries w es).1.state, log ++ answers),
          (follow visit registries w es).1.tally⟩, (follow visit registries w es).2) ∧
      Account w.arena es answers (follow visit registries w es).1.arena
        (follow visit registries w es).2 := by
  induction es generalizing w log with
  | nil => exact ⟨[], by simp [follow], .nil _ _⟩
  | cons event es ih =>
      have hlost' : ∀ id, Event.unknown id ∈ es → ¬ w.arena.Valid id :=
        fun id h => hlost id (List.mem_cons_of_mem _ h)
      cases event with
      | skip =>
          obtain ⟨answers, heq, hanswers⟩ := ih { w with tally := w.tally.skip } log hlost'
          exact ⟨answers, heq, hanswers.skip⟩
      | unknown id =>
          exact ⟨[], by simp [follow], .unknown (hlost id List.mem_cons_self) _⟩
      | call c =>
          cases hv : visit ⟨w.arena, c.root, c.registry, registries⟩ c.node w.state with
          | mk state fault =>
              have hwitnessed : visit.witnessed ⟨w.arena, c.root, c.registry, registries⟩ c.node
                  (w.state, log) = ((state, log ++ [⟨c, w.arena, fault⟩]), fault) := by
                simp only [Visitor.witnessed, hv]
              cases fault with
              | some e =>
                  refine ⟨[⟨c, w.arena, some e⟩], ?_, ?_⟩
                  · rw [follow_call_refused hwitnessed, follow_call_refused hv]
                  · rw [follow_call_refused hv]
                    exact .refused _ _ _ _
              | none =>
                  rw [follow_call_accepted hv, follow_call_accepted hwitnessed]
                  obtain ⟨answers, heq, hanswers⟩ :=
                    ih ⟨w.arena.markProcessed c.node, state, w.tally.process⟩
                      (log ++ [⟨c, w.arena, none⟩]) (by simpa using hlost')
                  refine ⟨⟨c, w.arena, none⟩ :: answers, ?_, hanswers.accept⟩
                  rw [heq, List.append_assoc, List.singleton_append]

/-- What a route finds unknown does not exist. -/
theorem not_valid_of_unknown_mem_route {a : Arena} {tasks : List Task} {id : NodeId}
    (h : Event.unknown id ∈ route a tasks) : ¬ a.Valid id := by
  induction a, tasks using route_induction with
  | done a => simp at h
  | lost a registry root tasks hget ih =>
      rw [route_enter_none hget, List.mem_cons, Event.unknown.injEq] at h
      rcases h with rfl | h
      · exact Arena.get?_eq_none_iff.mp hget
      · exact ih h
  | enter a registry root tasks d hget ih =>
      rw [route_enter_some hget] at h
      exact ih h
  | root a registry root q tasks hroot ih =>
      rw [route_root hroot] at h
      exact ih (by simpa using h)
  | dangling a registry root q tasks hroot hget ih =>
      rw [route_unknown hroot hget, List.mem_cons, Event.unknown.injEq] at h
      rcases h with rfl | h
      · exact Arena.get?_eq_none_iff.mp hget
      · exact ih h
  | flagged a registry root q tasks d hroot hget hp ih =>
      rw [route_flagged hroot hget hp] at h
      exact ih (by simpa using h)
  | call a registry root q tasks d hroot hget hp ih =>
      rw [route_call hroot hget hp] at h
      have hrest := ih (by simpa using h)
      rwa [Arena.valid_markProcessed] at hrest

section

variable {a b : Arena} {tasks : List Task} {answers : List Answer} {fault : Option Error}

/-- No node is called twice on one route. -/
theorem Account.nodup (h : Account a (route a tasks) answers b fault) :
    (answers.map (·.call.node)).Nodup := by
  have hprefix : answers.map (·.call.node) <+: called (route a tasks) := by
    have := h.calls.map (·.node)
    rwa [List.map_map] at this
  exact hprefix.sublist.nodup (nodup_called_route a tasks)

/-- Each answered call is on the route. -/
theorem Account.mem_called (h : Account a (route a tasks) answers b fault) {x : Answer}
    (hx : x ∈ answers) : x.call.node ∈ called (route a tasks) :=
  Walk.mem_called.mpr ⟨x.call, h.calls.subset (List.mem_map_of_mem hx), rfl⟩

/-- A flag is set after a walk if it was set before or the node was accepted. -/
theorem Account.isProcessed_iff (h : Account a (route a tasks) answers b fault)
    {before after : List Answer} (hsplit : answers = before ++ after) (id : NodeId) :
    (a.markAll (accepted before)).isProcessed id = true ↔
      a.isProcessed id = true ∨ id ∈ accepted before := by
  rw [Arena.isProcessed_markAll]
  refine or_congr_right (and_iff_right_of_imp fun hid => ?_)
  obtain ⟨x, hx, rfl⟩ := List.mem_map.mp ((accepted_sublist before).subset hid)
  refine valid_of_mem_called_route (h.mem_called ?_)
  rw [hsplit]
  exact List.mem_append_left _ hx

/-- When a node is called it is not flagged, neither from before the walk nor by
the walk itself. -/
theorem Account.not_isProcessed (h : Account a (route a tasks) answers b fault)
    {before after : List Answer} {x : Answer} (hsplit : answers = before ++ x :: after) :
    (a.markAll (accepted before)).isProcessed x.call.node = false := by
  have hx : x ∈ answers := by
    rw [hsplit]
    exact List.mem_append_right _ List.mem_cons_self
  have hbefore : x.call.node ∉ before.map (·.call.node) := by
    have hnodup := h.nodup
    rw [hsplit, List.map_append, List.map_cons, List.nodup_append] at hnodup
    exact fun hmem => hnodup.2.2 _ hmem _ List.mem_cons_self rfl
  rw [← Bool.not_eq_true, h.isProcessed_iff hsplit,
    not_isProcessed_of_mem_called_route (h.mem_called hx)]
  simp only [Bool.false_eq_true, false_or]
  exact fun hmem => hbefore ((accepted_sublist before).subset hmem)

/-- A walk leaves the node at which it fails without a flag. -/
theorem Account.not_isProcessed_failedAt (h : Account a (route a tasks) answers b fault)
    {e : Error} {id : NodeId} (hfailed : FailedAt a answers e id) : b.isProcessed id = false := by
  cases hfailed with
  | @refused before x hsplit hx hbefore =>
      have haccepted : accepted answers = accepted before := by
        rw [hsplit, accepted_append, accepted_cons_refused hx, accepted_nil, List.append_nil]
      rw [h.arena, haccepted]
      exact h.not_isProcessed hsplit
  | unknown herror hid hall =>
      rw [← Arena.valid_markAll a (accepted answers), ← h.arena] at hid
      simp [Arena.isProcessed, Arena.get?_eq_none_iff.mpr hid]

end

end Walk

namespace Session

open Walk

/-! ## walks and their answers -/

/-- The error of an outcome that is one. -/
def failure {α : Type} : Except Error α → Option Error
  | .error e => some e
  | .ok _ => none

theorem failure_map {α β : Type} (f : α → β) (out : Except Error α) :
    failure (out.map f) = failure out := by
  cases out with
  | error e => rfl
  | ok x => rfl

section

variable {σ : Type} (s : Session)

/-- What a visitor answers in a walk of the whole session. -/
def answers (visit : Visitor σ) (state : σ) : List Answer :=
  (s.walkAll visit.witnessed (state, [])).2.1.2

def answersIn (space : String) (visit : Visitor σ) (state : σ) : List Answer :=
  (s.walkSpace space visit.witnessed (state, [])).2.1.2

/-- What the resolver answers when references are resolved. -/
def resolverAnswers (strict : Bool) : List Answer :=
  s.answers Resolver.visit { builtins := s.builtins, strict }

/-- A witnessed walk does the same and tells each call with its answer. -/
theorem walkAll_witnessed (visit : Visitor σ) (state : σ) :
    s.walkAll visit.witnessed (state, []) =
        ((s.walkAll visit state).1, ((s.walkAll visit state).2.1, s.answers visit state),
          (s.walkAll visit state).2.2) ∧
      Account s.arena s.itinerary (s.answers visit state) (s.walkAll visit state).1.arena
        (failure (s.walkAll visit state).2.2) := by
  obtain ⟨answers, heq, haccount⟩ := follow_witnessed visit s.registries
    { arena := s.arena, state } [] s.itinerary fun _ => not_valid_of_unknown_mem_route
  have hanswers : s.answers visit state = answers := by
    rw [Session.answers, walkAll_eq_follow, heq]
    rfl
  rw [hanswers, walkAll_eq_follow, walkAll_eq_follow, heq]
  cases hfollow : follow visit s.registries { arena := s.arena, state } s.itinerary with
  | mk w fault =>
      rw [hfollow] at haccount
      cases fault with
      | none => exact ⟨rfl, haccount⟩
      | some e => exact ⟨rfl, haccount⟩

/-- A witnessed walk of a namespace does the same and tells each call with its answer. -/
theorem walkSpace_witnessed (space : String) (visit : Visitor σ) (state : σ) :
    s.walkSpace space visit.witnessed (state, []) =
        ((s.walkSpace space visit state).1,
          ((s.walkSpace space visit state).2.1, s.answersIn space visit state),
          (s.walkSpace space visit state).2.2) ∧
      ∃ tasks, Account s.arena (route s.arena tasks) (s.answersIn space visit state)
        (s.walkSpace space visit state).1.arena (failure (s.walkSpace space visit state).2.2) := by
  cases hget : s.registries.get? space with
  | none =>
      simp only [answersIn, walkSpace, hget, failure, true_and]
      exact ⟨[], .nil _ _⟩
  | some r =>
      obtain ⟨answers, heq, haccount⟩ := follow_witnessed visit s.registries
        { arena := s.arena, state } [] (route s.arena (enterAll [r]))
        fun _ => not_valid_of_unknown_mem_route
      have hanswers : s.answersIn space visit state = answers := by
        rw [answersIn, walkSpace_eq_follow hget, heq]
        rfl
      rw [hanswers, walkSpace_eq_follow hget, walkSpace_eq_follow hget, heq]
      cases hfollow : follow visit s.registries { arena := s.arena, state }
          (route s.arena (enterAll [r])) with
      | mk w fault =>
          rw [hfollow] at haccount
          cases fault with
          | none => exact ⟨rfl, _, haccount⟩
          | some e => exact ⟨rfl, _, haccount⟩

/-- Resolving references is a walk like any other, notes apart. -/
theorem resolveReferences_walked (strict : Bool) :
    let walk := s.walkAll Resolver.visit { builtins := s.builtins, strict }
    (s.resolveReferences strict).1.arena = walk.1.arena ∧
      (s.resolveReferences strict).2 = walk.2.2.map fun _ => walk.2.1 := by
  have hnoted := walkAll_withNotes s (s.diagnostics.append s.unfetchedNotes) Resolver.visit
    { builtins := s.builtins, strict }
  cases hwalk : s.walkAll Resolver.visit { builtins := s.builtins, strict } with
  | mk s' p =>
      obtain ⟨final, out⟩ := p
      rw [hwalk] at hnoted
      simp only [resolveReferences, hnoted]
      cases out with
      | error e => exact ⟨rfl, rfl⟩
      | ok tally => exact ⟨rfl, rfl⟩

end

/-- A walk of `s`, be that with some visitor or to resolve references: what was
answered, the session that it leaves, and the error that it failed with, if it
did. -/
inductive Walks (s : Session) : List Answer → Session → Option Error → Prop
  | all {σ : Type} (visit : Visitor σ) (state : σ) :
    Walks s (s.answers visit state) (s.walkAll visit state).1
      (failure (s.walkAll visit state).2.2)
  | space (space : String) {σ : Type} (visit : Visitor σ) (state : σ) :
    Walks s (s.answersIn space visit state) (s.walkSpace space visit state).1
      (failure (s.walkSpace space visit state).2.2)
  | resolve (strict : Bool) :
    Walks s (s.resolverAnswers strict) (s.resolveReferences strict).1
      (failure (s.resolveReferences strict).2)

section

variable {s t u : Session} {xs ys : List Answer} {fault : Option Error}

/-- **Every walk** accounts for what it does to the arena, and changes no
registry. -/
theorem Walks.account (h : s.Walks xs t fault) :
    (∃ tasks, Account s.arena (route s.arena tasks) xs t.arena fault) ∧
      t.registries = s.registries ∧ t.builtins = s.builtins := by
  cases h with
  | all visit state =>
      obtain ⟨ids, hids⟩ := exists_walkAll_fst s visit state
      exact ⟨⟨_, (walkAll_witnessed s visit state).2⟩, by rw [hids]; rfl, by rw [hids]; rfl⟩
  | space space visit state =>
      obtain ⟨ids, hids⟩ := exists_walkSpace_fst s space visit state
      exact ⟨(walkSpace_witnessed s space visit state).2, by rw [hids]; rfl, by rw [hids]; rfl⟩
  | resolve strict =>
      obtain ⟨ids, notes, hids⟩ := exists_resolveReferences_fst s strict
      obtain ⟨harena, hout⟩ := resolveReferences_walked s strict
      refine ⟨⟨enterAll s.registries.values, ?_⟩, by rw [hids]; rfl, by rw [hids]; rfl⟩
      rw [harena, hout, failure_map]
      exact (walkAll_witnessed s Resolver.visit _).2

/-- A walk of the session is a walk with the answers it got. -/
theorem Walks.of_walkAll {σ : Type} {visit : Visitor σ} {state final : σ}
    {out : Except Error Tally} (h : s.walkAll visit state = (t, final, out)) :
    s.Walks (s.answers visit state) t (failure out) := by
  have hwalks := Walks.all (s := s) visit state
  rwa [h] at hwalks

/-! ## runs -/

/-- One operation of a session, with what was answered in it.  The arena may be
changed as `Edit` allows. -/
inductive Step (Edit : Arena → Arena → Prop) : Session → List Answer → Session → Prop
  | edit {s : Session} (b : Arena) (h : Edit s.arena b) : Step Edit s [] { s with arena := b }
  | add {s t : Session} {root : NodeId} (h : s.addDocument root = .ok t) : Step Edit s [] t
  /-- A document that cannot be added changes nothing. -/
  | refuse {s : Session} {root : NodeId} {e : Error} (h : s.addDocument root = .error e) :
    Step Edit s [] s
  | walk {s t : Session} {xs : List Answer} {fault : Option Error} (h : s.Walks xs t fault) :
    Step Edit s xs t

/-- Any number of operations, with everything that was answered in them. -/
inductive Run (Edit : Arena → Arena → Prop) (s : Session) : List Answer → Session → Prop
  | start : Run Edit s [] s
  | step {t u : Session} {xs ys : List Answer} (h : Run Edit s xs t) (hstep : Step Edit t ys u) :
    Run Edit s (xs ++ ys) u

/-- Runs are composed one after the other. -/
theorem Run.trans {Edit : Arena → Arena → Prop} (hst : Run Edit s xs t) (htu : Run Edit t ys u) :
    Run Edit s (xs ++ ys) u := by
  induction htu with
  | start =>
      rw [List.append_nil]
      exact hst
  | step _ hstep ih =>
      rw [← List.append_assoc]
      exact ih.step hstep

end

end Session

/-! ## changes that leave the flags alone -/

/-- The same declarations are flagged in both. -/
def Arena.SameFlags (a b : Arena) : Prop := ∀ id, b.isProcessed id = a.isProcessed id

namespace Arena

/-- What is annexed changes no flag. -/
theorem Annexed.sameFlags {a b : Arena} (h : Annexed a b) : a.SameFlags b := by
  intro id
  by_cases hvalid : a.Valid id
  · obtain ⟨d, hd⟩ := valid_iff.mp hvalid
    rw [isProcessed_of_get? hd, isProcessed_of_get? (h.grown id d hd)]
  · have hnone : a.isProcessed id = false := by simp [isProcessed, get?_eq_none_iff.mpr hvalid]
    rw [hnone]
    cases hd : b.get? id with
    | none => simp [isProcessed, hd]
    | some d =>
        rw [isProcessed_of_get? hd]
        exact h.fresh id d hvalid hd

/-- A new edge changes no flag. -/
theorem sameFlags_link (a : Arena) (parent child : NodeId) : a.SameFlags (a.link parent child) := by
  intro id
  rw [isProcessed, isProcessed, link, get?_modify]
  split
  · cases a.get? id with
    | none => rfl
    | some d => rfl
  · rfl

/-- A new declaration without a flag changes no flag. -/
theorem sameFlags_alloc (a : Arena) {d : Declaration} (hd : d.processed = false) :
    a.SameFlags (a.alloc d).2 := by
  intro id
  rw [isProcessed, isProcessed, get?_alloc]
  split
  · next h =>
    have hnone : a.get? id = none := get?_eq_none_iff.mpr (by rw [Valid]; omega)
    simp [hnone, hd]
  · rfl

/-- Growing an arena sets and clears no flag. -/
theorem sameFlags_grow (a : Arena) :
    (∀ d : Declaration, d.processed = false → a.SameFlags (a.alloc d).2) ∧
    (∀ (parent id : NodeId) (d : Declaration) (b : Arena), d.processed = false →
      a.allocChild parent d = .ok (id, b) → a.SameFlags b) ∧
    (∀ (parent child : NodeId) (b : Arena), a.addChild parent child = .ok b → a.SameFlags b) ∧
    ∀ text : String, a.SameFlags (a.load text).1 := by
  refine ⟨fun d hd => sameFlags_alloc a hd, ?_, ?_, fun text => (annexed_load a text).sameFlags⟩
  · intro parent id d b hd h
    rw [allocChild] at h
    split at h
    · contradiction
    · simp only [Except.ok.injEq, Prod.mk.injEq] at h
      rw [← h.2]
      intro q
      rw [sameFlags_link, sameFlags_alloc a hd]
  · intro parent child b h
    rw [addChild] at h
    split at h
    · contradiction
    · contradiction
    · rw [← Except.ok.inj h]
      exact sameFlags_link a parent child

end Arena

namespace Session

open Walk

/-! ## flags are a record -/

/-- The flags of an arena are those of the nodes that were accepted, and were so
at every call. -/
structure Recorded (answers : List Answer) (a : Arena) : Prop where
  flags : ∀ id, a.isProcessed id = true ↔ id ∈ accepted answers
  nodup : (accepted answers).Nodup
  seen : ∀ before x after, answers = before ++ x :: after →
    x.seen.isProcessed x.call.node = false ∧
      ∀ id, x.seen.isProcessed id = true ↔ id ∈ accepted before

section

variable {a b : Arena} {answers : List Answer}

/-- Without a walk nothing is flagged. -/
theorem recorded_nil (h : a.Unprocessed) : Recorded [] a where
  flags := by
    intro id
    rw [Arena.isProcessed_of_unprocessed h]
    simp
  nodup := List.nodup_nil
  seen := by
    intro before x after h
    simp at h

/-- Steps that change no flag leave the record right. -/
theorem Recorded.sameFlags (h : Recorded answers a) (hb : a.SameFlags b) : Recorded answers b where
  flags := by
    intro id
    rw [hb id]
    exact h.flags id
  nodup := h.nodup
  seen := h.seen

/-- The answers of a walk are recorded behind those given before. -/
theorem Recorded.walk (h : Recorded answers a) {tasks : List Task} {more : List Answer}
    {fault : Option Error} (hwalk : Account a (route a tasks) more b fault) :
    Recorded (answers ++ more) b where
  flags := by
    intro id
    rw [hwalk.arena, hwalk.isProcessed_iff (List.append_nil more).symm, h.flags, accepted_append,
      List.mem_append]
  nodup := by
    have hmore : (accepted more).Nodup := (accepted_sublist more).nodup hwalk.nodup
    rw [accepted_append]
    refine List.nodup_append.mpr ⟨h.nodup, hmore, ?_⟩
    rintro id hid q hq rfl
    obtain ⟨x, hx, rfl⟩ := List.mem_map.mp ((accepted_sublist more).subset hq)
    have hflagged := (h.flags _).mpr hid
    rw [not_isProcessed_of_mem_called_route (hwalk.mem_called hx)] at hflagged
    contradiction
  seen := by
    intro before x after hsplit
    have hnew : ∀ front, more = front ++ x :: after →
        x.seen.isProcessed x.call.node = false ∧
          ∀ id, x.seen.isProcessed id = true ↔ id ∈ accepted (answers ++ front) := by
      intro front hmore
      rw [hwalk.seen front x after hmore]
      refine ⟨hwalk.not_isProcessed hmore, fun id => ?_⟩
      rw [hwalk.isProcessed_iff hmore, h.flags, accepted_append, List.mem_append]
    rcases List.append_eq_append_iff.mp hsplit with ⟨front, rfl, hmore⟩ | ⟨back, hanswers, hback⟩
    · exact hnew front hmore
    · cases back with
      | nil =>
          obtain rfl : answers = before := by rw [hanswers, List.append_nil]
          have hfirst := hnew [] hback.symm
          rwa [List.append_nil] at hfirst
      | cons y back =>
          obtain ⟨rfl, -⟩ := List.cons_eq_cons.mp hback
          exact h.seen before x back hanswers

end

section

variable {s t u : Session} {xs more : List Answer}

/-- One operation keeps the record. -/
theorem Recorded.step (h : Recorded xs s.arena) (hstep : Step Arena.SameFlags s more t) :
    Recorded (xs ++ more) t.arena := by
  cases hstep with
  | edit b hb =>
      rw [List.append_nil]
      exact h.sameFlags hb
  | add hadd =>
      obtain ⟨d, hadd⟩ := addition_of_addDocument hadd
      rw [List.append_nil, hadd.arena]
      exact h
  | refuse hadd =>
      rw [List.append_nil]
      exact h
  | walk hwalk =>
      obtain ⟨⟨tasks, haccount⟩, -, -⟩ := hwalk.account
      exact h.walk haccount

/-- **Flags are a record** of what was accepted, all through a run. -/
theorem Recorded.run (h : Recorded xs s.arena) (hrun : Run Arena.SameFlags s more t) :
    Recorded (xs ++ more) t.arena := by
  induction hrun with
  | start =>
      rw [List.append_nil]
      exact h
  | step _ hstep ih =>
      rw [← List.append_assoc]
      exact ih.step hstep

/-- After a run the flags are the accepted calls. -/
theorem recorded_run (hfresh : s.arena.Unprocessed) (hrun : Run Arena.SameFlags s xs t) :
    Recorded xs t.arena :=
  (recorded_nil hfresh).run hrun

/-- **Flags are exact.**  Let a session without flags go through any operations
that do not write flags from outside.  Then the nodes flagged are those that
some call has accepted, and that only once; it was so at every call, and no
call was made on a node that was flagged.  No operation clears a flag.  A walk
that fails sets the flags of the nodes that it had accepted and changes nothing
else in the arena and nothing in the registries; neither the node at which it
has failed nor any other that was never accepted is flagged. -/
theorem flags_exact (hfresh : s.arena.Unprocessed) (hrun : Run Arena.SameFlags s xs t) :
    (∀ id, t.arena.isProcessed id = true ↔ id ∈ accepted xs) ∧
    (accepted xs).Nodup ∧
    (∀ before x after, xs = before ++ x :: after →
      x.seen.isProcessed x.call.node = false ∧
        ∀ id, x.seen.isProcessed id = true ↔ id ∈ accepted before) ∧
    (∀ more u, Run Arena.SameFlags t more u →
      ∀ id, t.arena.isProcessed id = true → u.arena.isProcessed id = true) ∧
    ∀ more u e, t.Walks more u (some e) →
      u.arena = t.arena.markAll (accepted more) ∧
      u.registries = t.registries ∧
      (∀ id, id ∉ accepted (xs ++ more) → u.arena.isProcessed id = false) ∧
      ∃ id, FailedAt t.arena more e id ∧ u.arena.isProcessed id = false := by
  have hrecord := recorded_run hfresh hrun
  refine ⟨hrecord.flags, hrecord.nodup, hrecord.seen, ?_, ?_⟩
  · intro more u hmore id hid
    rw [(hrecord.run hmore).flags, accepted_append, List.mem_append]
    exact .inl ((hrecord.flags id).mp hid)
  · intro more u e hwalk
    obtain ⟨⟨tasks, haccount⟩, hregistries, -⟩ := hwalk.account
    have hafter := hrecord.walk haccount
    have hclear : ∀ id, id ∉ accepted (xs ++ more) → u.arena.isProcessed id = false := by
      intro id hid
      rwa [← Bool.not_eq_true, hafter.flags]
    refine ⟨haccount.arena, hregistries, hclear, ?_⟩
    obtain ⟨id, hfailed⟩ := haccount.failed e rfl
    exact ⟨id, hfailed, haccount.not_isProcessed_failedAt hfailed⟩

end

/-- The forked document after a walk has refused the inner declaration and a new
one has been allocated. -/
def regrownSession : Session :=
  let failed := forkedSession.marked [⟨1⟩]
  { failed with arena := (failed.arena.alloc { kind := .element, space := "urn:a" }).2 }

/-- A second walk, which refuses the next declaration, leaves the flag of the
outer one and sets none. -/
theorem flags_exact_forked :
    forkedSession.arena.Unprocessed ∧
      ∃ xs more u e, Run Arena.SameFlags forkedSession xs regrownSession ∧
        regrownSession.Walks more u (some e) ∧
        (∃ id, FailedAt regrownSession.arena more e id) ∧
        u.arena.isProcessed ⟨1⟩ = true ∧ u.arena.isProcessed ⟨2⟩ = false ∧
        u.arena.isProcessed ⟨3⟩ = false := by
  have hfresh : forkedSession.arena.Unprocessed := by decide +kernel
  have hitinerary : regrownSession.itinerary = [.skip, .call ⟨⟨3⟩, ⟨0⟩, forkedRegistry⟩] := by
    have hvalues : regrownSession.registries.values = [forkedRegistry] := rfl
    rw [itinerary, hvalues]
    simp [enterAll, regrownSession, marked, Arena.markAll, forkedSession, forkedArena,
      forkedRegistry, route, Task.below, Arena.get?, Arena.markProcessed, Arena.modify, Arena.alloc]
  have hfirst : accepted (forkedSession.answers (refusing ⟨2⟩) 0) = [⟨1⟩] := by
    rw [answers, walkAll_eq_follow, itinerary_forkedSession]
    rfl
  have hsecond : accepted (regrownSession.answers (refusing ⟨3⟩) 0) = [] := by
    rw [answers, walkAll_eq_follow, hitinerary]
    rfl
  have hrun : Run Arena.SameFlags forkedSession (forkedSession.answers (refusing ⟨2⟩) 0)
      regrownSession := by
    have hwalk : Run Arena.SameFlags forkedSession (forkedSession.answers (refusing ⟨2⟩) 0)
        (forkedSession.marked [⟨1⟩]) := Run.start.step (.walk (.of_walkAll walkAll_forkedSession))
    have hgrown : Step Arena.SameFlags (forkedSession.marked [⟨1⟩]) [] regrownSession :=
      .edit _ (Arena.sameFlags_alloc _ rfl)
    have hboth := hwalk.step hgrown
    rwa [List.append_nil] at hboth
  have hfails : regrownSession.walkAll (refusing ⟨3⟩) 0 =
      (regrownSession, 0, .error (.unresolvedReference ⟨3⟩ "type" "Missing")) := by
    rw [walkAll_eq_follow, hitinerary]
    rfl
  have hwalks := Walks.of_walkAll hfails
  obtain ⟨hflags, -, -, hkept, hclean⟩ := flags_exact hfresh hrun
  obtain ⟨-, -, hunflagged, id, hfailed, -⟩ := hclean _ _ _ hwalks
  have hunflagged : ∀ id, id ≠ ⟨1⟩ → regrownSession.arena.isProcessed id = false := by
    intro id hid
    exact hunflagged id (by simpa [hfirst, hsecond] using hid)
  exact ⟨hfresh, _, _, regrownSession, _, hrun, hwalks, ⟨id, hfailed⟩,
    (hflags ⟨1⟩).mpr (by simp [hfirst]), hunflagged ⟨2⟩ (by decide), hunflagged ⟨3⟩ (by decide)⟩

end Session

end SchemaCatalog
