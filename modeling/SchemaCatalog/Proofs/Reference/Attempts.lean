import SchemaCatalog.Proofs.Session.Built

/-!
# SchemaCatalog.Proofs.Reference.Attempts

What a resolver does, cut into attempts.  An *attempt* is one name in a
reference attribute together with what looking it up comes to.  Looking up
depends neither on flags nor on what the resolver has found so far, so the
attempts of a node can be listed in advance (`attempts`), and those of a walk
are the attempts of its calls, one after the other.  A resolver takes attempts
in turn until it refuses one:

* `visit_eq_takeAll`, for a node;
* `follow_visit_taken` and `resolveReferences_taken`, for a walk on which
  nothing is refused;
* `follow_visit_refused` and `resolveReferences_refused`, for a walk up to the
  first call that is.
-/

namespace SchemaCatalog

/-- A name in a reference attribute, and what looking it up comes to. -/
structure Attempt where
  site : Site
  name : String
  outcome : Except Error Resolution

namespace Attempt

/-- The resolution, if the name has one. -/
def found? (t : Attempt) : Option Resolution :=
  match t.outcome with
  | .ok found => some found
  | .error _ => none

/-- The note that a lenient resolver makes of a name without a resolution. -/
def left? (t : Attempt) : Option OpenReference :=
  match t.outcome with
  | .ok _ => none
  | .error e =>
    some { node := t.site.node, attr := t.site.attr, name := t.name, reason := e.message }

section

variable {t : Attempt}

/-- An attempt that succeeds finds its resolution. -/
theorem found?_ok {found : Resolution} (h : t.outcome = .ok found) : t.found? = some found := by
  rw [found?, h]

theorem found?_error {e : Error} (h : t.outcome = .error e) : t.found? = none := by
  rw [found?, h]

theorem left?_ok {found : Resolution} (h : t.outcome = .ok found) : t.left? = none := by
  rw [left?, h]

/-- An attempt that fails is left open under its site, name and message. -/
theorem left?_error {e : Error} (h : t.outcome = .error e) :
    t.left? = some ⟨t.site.node, t.site.attr, t.name, e.message⟩ := by
  rw [left?, h]

/-- An attempt leaves nothing open exactly if it succeeds. -/
theorem left?_eq_none : t.left? = none ↔ ∃ found, t.outcome = .ok found := by
  cases h : t.outcome with
  | ok found => simp [left?_ok h]
  | error e => simp [left?_error h]

end

end Attempt

namespace Resolver

/-! ## attempts of a node -/

/-- The attempts at one attribute of a node, given with the buckets it searches. -/
def attemptsAt (builtins : Builtins) (scope : Scope) (id : NodeId) (d : Declaration)
    (search : String × List Bucket) : List Attempt :=
  (((d.attr? search.1).map Text.words).getD []).map fun name =>
    ⟨⟨id, search.1⟩, name, resolveName builtins scope id d search.1 search.2 name⟩

def attempts (builtins : Builtins) (scope : Scope) (id : NodeId) (d : Declaration) : List Attempt :=
  (searches d.kind).flatMap (attemptsAt builtins scope id d)

/-- Every attempt of a node stands on the node. -/
theorem node_of_mem_attempts {builtins : Builtins} {scope : Scope} {id : NodeId} {d : Declaration}
    {t : Attempt} (h : t ∈ attempts builtins scope id d) : t.site.node = id := by
  obtain ⟨search, -, hat⟩ := List.mem_flatMap.mp h
  obtain ⟨name, -, rfl⟩ := List.mem_map.mp hat
  rfl

/-- Looking a name up does not depend on flags. -/
theorem resolveName_markAll (builtins : Builtins) (a : Arena) (ids : List NodeId) (root : NodeId)
    (registry : Registry) (registries : Table String Registry) (id : NodeId) (d : Declaration)
    (flag : Bool) (attr : String) (buckets : List Bucket) (text : String) :
    resolveName builtins ⟨a.markAll ids, root, registry, registries⟩ id { d with processed := flag }
        attr buckets text =
      resolveName builtins ⟨a, root, registry, registries⟩ id d attr buckets text := by
  cases h : a.get? root with
  | none => simp only [resolveName, Arena.get?_markAll, h, Option.map_none]
  | some r =>
      simp only [resolveName, Arena.get?_markAll, h, Option.map_some]
      rfl

/-- The attempts at a node do not depend on flags. -/
theorem attempts_markAll (builtins : Builtins) (a : Arena) (ids : List NodeId) (root : NodeId)
    (registry : Registry) (registries : Table String Registry) (id : NodeId) (d : Declaration)
    (flag : Bool) :
    attempts builtins ⟨a.markAll ids, root, registry, registries⟩ id { d with processed := flag } =
      attempts builtins ⟨a, root, registry, registries⟩ id d := by
  have hat : attemptsAt builtins ⟨a.markAll ids, root, registry, registries⟩ id
        { d with processed := flag } =
      attemptsAt builtins ⟨a, root, registry, registries⟩ id d := by
    funext search
    simp only [attemptsAt, resolveName_markAll]
    rfl
  rw [attempts, attempts, hat]

/-! ## taking attempts -/

/-- Takes down an attempt, or refuses it. -/
def take (r : Resolver) (t : Attempt) : Resolver × Option Error :=
  match t.outcome with
  | .ok found => (r.note t.site found, none)
  | .error e => if r.strict then (r, some e) else (r.leaveOpen t.site t.name e, none)

/-- Takes down attempts in order, up to the first that is refused. -/
def takeAll : Resolver → List Attempt → Resolver × Option Error
  | r, [] => (r, none)
  | r, t :: ts =>
    match r.take t with
    | (r, some e) => (r, some e)
    | (r, none) => takeAll r ts

section

variable {r : Resolver} {t : Attempt}

/-- A success is noted, whatever the mode. -/
theorem take_ok {found : Resolution} (h : t.outcome = .ok found) :
    r.take t = (r.note t.site found, none) := by
  rw [take, h]

/-- A strict resolver refuses the first failure. -/
theorem take_strict {e : Error} (h : t.outcome = .error e) (hstrict : r.strict = true) :
    r.take t = (r, some e) := by
  rw [take, h]
  exact if_pos hstrict

/-- A lenient resolver leaves a failure open and goes on. -/
theorem take_lenient {e : Error} (h : t.outcome = .error e) (hstrict : r.strict = false) :
    r.take t = (r.leaveOpen t.site t.name e, none) := by
  rw [take, h]
  exact if_neg (by simp [hstrict])

end

theorem takeAll_cons_taken {r r' : Resolver} {t : Attempt} (h : r.take t = (r', none))
    (ts : List Attempt) : r.takeAll (t :: ts) = r'.takeAll ts := by
  rw [takeAll, h]

theorem takeAll_cons_refused {r r' : Resolver} {t : Attempt} {e : Error}
    (h : r.take t = (r', some e)) (ts : List Attempt) : r.takeAll (t :: ts) = (r', some e) := by
  rw [takeAll, h]

/-- Later attempts are taken if none of the earlier ones was refused. -/
theorem takeAll_append (r : Resolver) (ts us : List Attempt) :
    r.takeAll (ts ++ us) =
      match r.takeAll ts with
      | (r', some e) => (r', some e)
      | (r', none) => r'.takeAll us := by
  induction ts generalizing r with
  | nil => rfl
  | cons t ts ih =>
      cases h : r.take t with
      | mk r' fault =>
          cases fault with
          | some e => rw [List.cons_append, takeAll_cons_refused h, takeAll_cons_refused h]
          | none => rw [List.cons_append, takeAll_cons_taken h, takeAll_cons_taken h, ih]

/-- No attempt changes the built-in names or the mode. -/
theorem frame_take (r : Resolver) (t : Attempt) :
    (r.take t).1.builtins = r.builtins ∧ (r.take t).1.strict = r.strict := by
  rw [take]
  split
  · exact ⟨rfl, rfl⟩
  · split <;> exact ⟨rfl, rfl⟩

/-- Taking attempts changes what was found, not how it is looked for. -/
theorem frame_takeAll (r : Resolver) (ts : List Attempt) :
    (r.takeAll ts).1.builtins = r.builtins ∧ (r.takeAll ts).1.strict = r.strict := by
  induction ts generalizing r with
  | nil => exact ⟨rfl, rfl⟩
  | cons t ts ih =>
      have hframe := frame_take r t
      cases h : r.take t with
      | mk r' fault =>
          rw [h] at hframe
          cases fault with
          | some e =>
              rw [takeAll_cons_refused h]
              exact hframe
          | none =>
              obtain ⟨hbuiltins, hstrict⟩ := ih r'
              rw [takeAll_cons_taken h, hbuiltins, hstrict]
              exact hframe

theorem builtins_of_takeAll {r r' : Resolver} {ts : List Attempt} {fault : Option Error}
    (h : r.takeAll ts = (r', fault)) : r'.builtins = r.builtins := by
  have hframe := (frame_takeAll r ts).1
  rwa [h] at hframe

/-! ## a node is its attempts -/

/-- Resolving the names of an attribute takes the attempt at each in turn. -/
theorem resolveNames_eq_takeAll (scope : Scope) (id : NodeId) (d : Declaration) (attr : String)
    (buckets : List Bucket) (r : Resolver) (names : List String) :
    resolveNames scope id d attr buckets r names =
      r.takeAll (names.map fun name =>
        ⟨⟨id, attr⟩, name, resolveName r.builtins scope id d attr buckets name⟩) := by
  induction names generalizing r with
  | nil => rfl
  | cons name names ih =>
      rw [resolveNames, List.map_cons, takeAll, take]
      cases h : resolveName r.builtins scope id d attr buckets name with
      | ok found =>
          simp only [ih]
          rfl
      | error e =>
          by_cases hstrict : r.strict
          · simp only [if_pos hstrict]
          · simp only [if_neg hstrict, ih]
            rfl

/-- Resolving attributes takes the attempts at each of them in turn. -/
theorem resolveAttributes_eq_takeAll (scope : Scope) (id : NodeId) (d : Declaration) (r : Resolver)
    (sought : List (String × List Bucket)) :
    resolveAttributes scope id d r sought =
      r.takeAll (sought.flatMap (attemptsAt r.builtins scope id d)) := by
  induction sought generalizing r with
  | nil => rfl
  | cons search sought ih =>
      obtain ⟨attr, buckets⟩ := search
      have hfirst : resolveNames scope id d attr buckets r
          (((d.attr? attr).map Text.words).getD []) =
          r.takeAll (attemptsAt r.builtins scope id d (attr, buckets)) :=
        resolveNames_eq_takeAll scope id d attr buckets r _
      rw [resolveAttributes, hfirst, List.flatMap_cons, takeAll_append]
      cases h : r.takeAll (attemptsAt r.builtins scope id d (attr, buckets)) with
      | mk r' fault =>
          cases fault with
          | some e => rfl
          | none =>
              simp only [ih]
              rw [builtins_of_takeAll h]

/-- **A visit** takes down the attempts of its node. -/
theorem visit_eq_takeAll {scope : Scope} {id : NodeId} {d : Declaration}
    (h : scope.arena.get? id = some d) (r : Resolver) :
    visit scope id r = r.takeAll (attempts r.builtins scope id d) := by
  rw [visit, h]
  exact resolveAttributes_eq_takeAll scope id d r (searches d.kind)

end Resolver

/-! ## attempts of a walk -/

/-- The attempts that a call comes to in a session. -/
def Walk.Call.attempts (s : Session) (c : Walk.Call) : List Attempt :=
  match s.arena.get? c.node with
  | none => []
  | some d => Resolver.attempts s.builtins ⟨s.arena, c.root, c.registry, s.registries⟩ c.node d

namespace Resolver

open Walk

/-- At a call the resolver takes the attempts of the node. -/
theorem visit_call {s : Session} {c : Call} (hc : s.arena.Valid c.node) (ids : List NodeId)
    {r : Resolver} (hr : r.builtins = s.builtins) :
    visit ⟨s.arena.markAll ids, c.root, c.registry, s.registries⟩ c.node r =
      r.takeAll (c.attempts s) := by
  obtain ⟨d, hd⟩ := Arena.valid_iff.mp hc
  have hmarked : (s.arena.markAll ids).get? c.node =
      some { d with processed := d.processed || decide (c.node ∈ ids) } := by
    rw [Arena.get?_markAll, hd, Option.map_some]
  rw [visit_eq_takeAll hmarked, attempts_markAll, hr]
  simp only [Call.attempts, hd]

/-- **A route without refusals** leaves the resolver with the attempts of its
calls taken down. -/
theorem follow_visit_taken {s : Session} {es : List Event} (hknown : ∀ id, Event.unknown id ∉ es)
    (hvalid : ∀ c ∈ calls es, s.arena.Valid c.node) (ids : List NodeId) {r r' : Resolver}
    (hr : r.builtins = s.builtins) (tally : Tally)
    (htaken : r.takeAll ((calls es).flatMap (·.attempts s)) = (r', none)) :
    ∃ tally', follow visit s.registries ⟨s.arena.markAll ids, r, tally⟩ es =
      (⟨s.arena.markAll (ids ++ called es), r', tally'⟩, none) := by
  induction es generalizing ids r tally with
  | nil =>
      obtain rfl : r = r' := congrArg Prod.fst htaken
      exact ⟨tally, by simp [follow]⟩
  | cons event es ih =>
      have hknown' : ∀ id, Event.unknown id ∉ es :=
        fun id h => hknown id (List.mem_cons_of_mem _ h)
      cases event with
      | skip => exact ih hknown' hvalid ids hr tally.skip htaken
      | unknown id => exact absurd List.mem_cons_self (hknown id)
      | call c =>
          rw [calls_call, List.forall_mem_cons] at hvalid
          rw [calls_call, List.flatMap_cons, takeAll_append] at htaken
          cases hc : r.takeAll (c.attempts s) with
          | mk r₁ fault =>
              cases fault with
              | some e => simp [hc] at htaken
              | none =>
                  have hr₁ : r₁.builtins = s.builtins := (builtins_of_takeAll hc).trans hr
                  have hvisit := visit_call hvalid.1 ids hr
                  rw [hc] at hvisit htaken
                  obtain ⟨tally', hrest⟩ := ih hknown' hvalid.2 (ids ++ [c.node]) hr₁
                    tally.process htaken
                  refine ⟨tally', ?_⟩
                  rw [follow_call_accepted hvisit, called_call, ← List.singleton_append,
                    ← List.append_assoc, ← hrest, Arena.markAll_append]
                  rfl

/-- **A refusal** ends the walk before the node is flagged. -/
theorem follow_visit_refused {s : Session} {es : List Event} (hknown : ∀ id, Event.unknown id ∉ es)
    (hvalid : ∀ c ∈ calls es, s.arena.Valid c.node) {before after : List Call} {c : Call}
    (hcalls : calls es = before ++ c :: after) {r r₁ r₂ : Resolver} {e : Error}
    (hr : r.builtins = s.builtins) (tally : Tally)
    (htaken : r.takeAll (before.flatMap (·.attempts s)) = (r₁, none))
    (hrefused : r₁.takeAll (c.attempts s) = (r₂, some e)) :
    ∃ tally', follow visit s.registries ⟨s.arena, r, tally⟩ es =
      (⟨s.arena.markAll (before.map (·.node)), r₂, tally'⟩, some e) := by
  obtain ⟨front, back, rfl, rfl⟩ := exists_append_of_calls hcalls
  have hvalid' : ∀ c ∈ calls front, s.arena.Valid c.node := by
    intro c hc
    exact hvalid c (by rw [calls_append]; exact List.mem_append_left _ hc)
  have hc : s.arena.Valid c.node := hvalid c (by rw [hcalls]; simp)
  obtain ⟨tally', hfront⟩ := follow_visit_taken
    (fun id h => hknown id (List.mem_append_left _ h)) hvalid' [] hr tally htaken
  rw [Arena.markAll_nil, List.nil_append] at hfront
  have hr₁ : r₁.builtins = s.builtins := (builtins_of_takeAll htaken).trans hr
  have hvisit := visit_call hc (called front) hr₁
  rw [hrefused] at hvisit
  refine ⟨tally', ?_⟩
  rw [follow_append, hfront]
  exact follow_call_refused hvisit

end Resolver

namespace Session

open Walk

section

variable {s : Session}

/-- Each node of the itinerary is in the arena. -/
theorem valid_of_mem_itinerary {c : Call} (hc : c ∈ calls s.itinerary) : s.arena.Valid c.node :=
  valid_of_mem_called_route (mem_called.mpr ⟨c, hc, rfl⟩)

/-- A walk that refuses nothing takes all attempts down and flags all nodes. -/
theorem walkAll_taken (hrooted : s.Rooted) (hclosed : s.arena.Closed) {r r' : Resolver}
    (hr : r.builtins = s.builtins)
    (htaken : r.takeAll ((calls s.itinerary).flatMap (·.attempts s)) = (r', none)) :
    ∃ tally, s.walkAll Resolver.visit r = (s.marked (called s.itinerary), r', .ok tally) := by
  obtain ⟨tally, hfollow⟩ := Resolver.follow_visit_taken (hrooted.unknown_not_mem_itinerary hclosed)
    (fun c hc => valid_of_mem_itinerary hc) [] hr {} htaken
  rw [Arena.markAll_nil, List.nil_append] at hfollow
  exact ⟨tally, by rw [walkAll_eq_follow, hfollow, outcome, marked]⟩

/-- A walk with a refusal leaves the nodes flagged that were called before. -/
theorem walkAll_refused (hrooted : s.Rooted) (hclosed : s.arena.Closed)
    {before after : List Call} {c : Call} (hcalls : calls s.itinerary = before ++ c :: after)
    {r r₁ r₂ : Resolver} {e : Error} (hr : r.builtins = s.builtins)
    (htaken : r.takeAll (before.flatMap (·.attempts s)) = (r₁, none))
    (hrefused : r₁.takeAll (c.attempts s) = (r₂, some e)) :
    s.walkAll Resolver.visit r = (s.marked (before.map (·.node)), r₂, .error e) := by
  obtain ⟨tally, hfollow⟩ :=
    Resolver.follow_visit_refused (hrooted.unknown_not_mem_itinerary hclosed)
      (fun c hc => valid_of_mem_itinerary hc) hcalls hr {} htaken hrefused
  rw [walkAll_eq_follow, hfollow, outcome, marked]

/-- The session as its walk finds it, with the notes on unfetched references. -/
def noted (s : Session) : Session :=
  { s with diagnostics := s.diagnostics.append s.unfetchedNotes }

theorem Rooted.noted (h : s.Rooted) : s.noted.Rooted :=
  h.of_registries_eq rfl (Nat.le_refl _)

/-- **Nothing refused**: all attempts are taken down, and all nodes flagged. -/
theorem resolveReferences_taken (hrooted : s.Rooted) (hclosed : s.arena.Closed) {strict : Bool}
    {r : Resolver}
    (htaken : ({ builtins := s.builtins, strict } : Resolver).takeAll
      ((calls s.itinerary).flatMap (·.attempts s)) = (r, none)) :
    s.resolveReferences strict =
      ({ s.noted.marked (called s.itinerary) with
          diagnostics := s.noted.diagnostics.append
            (r.unresolved.map (openNote (s.arena.markAll (called s.itinerary)))) }, .ok r) := by
  obtain ⟨tally, hwalk⟩ := walkAll_taken (s := s.noted) hrooted.noted hclosed rfl htaken
  simp only [noted] at hwalk
  simp only [resolveReferences, hwalk]
  rfl

/-- **A refusal** leaves the nodes flagged that were called before. -/
theorem resolveReferences_refused (hrooted : s.Rooted) (hclosed : s.arena.Closed) {strict : Bool}
    {before after : List Call} {c : Call} (hcalls : calls s.itinerary = before ++ c :: after)
    {r₁ r₂ : Resolver} {e : Error}
    (htaken : ({ builtins := s.builtins, strict } : Resolver).takeAll
      (before.flatMap (·.attempts s)) = (r₁, none))
    (hrefused : r₁.takeAll (c.attempts s) = (r₂, some e)) :
    s.resolveReferences strict = (s.noted.marked (before.map (·.node)), .error e) := by
  have hwalk := walkAll_refused (s := s.noted) hrooted.noted hclosed hcalls rfl htaken hrefused
  simp only [noted] at hwalk
  simp only [resolveReferences, hwalk]
  rfl

end

end Session

end SchemaCatalog
