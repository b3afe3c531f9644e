import SchemaCatalog.Proofs.Reference.Attempts

/-!
# SchemaCatalog.Proofs.Reference.Strictness

A strict and a lenient resolver, run on the same session.  They find the same
as long as every name has a resolution (`takeAll_found`).  At the first name
that has none the strict one stops with the error, and the lenient one makes
its first note, with the wording of that error, and goes on.

The name may stand anywhere, in the middle of an attribute of a deep node.
Since both runs take the same attempts in the same order, it is enough to find
the first call that leaves a name open and, among its attempts, the first that
fails.
-/

namespace SchemaCatalog

def Error.node? : Error → Option NodeId
  | unknownNode id => some id
  | unresolvedReference node _ _ => some node
  | unknownPrefix node _ => some node
  | invalidFragment _ | unreadable _ | notJson _ | badSettings => none

/-! ## one list of attempts, two resolvers -/

namespace Resolver

/-- Names with resolutions are taken down in the same way, strict or not. -/
theorem takeAll_found {ts : List Attempt} (h : ∀ t ∈ ts, t.left? = none) (r : Resolver) :
    ∃ resolved, ∀ strict : Bool,
      ({ r with strict } : Resolver).takeAll ts = ({ r with strict, resolved }, none) := by
  induction ts generalizing r with
  | nil => exact ⟨r.resolved, fun _ => rfl⟩
  | cons t ts ih =>
      rw [List.forall_mem_cons] at h
      obtain ⟨found, hfound⟩ := Attempt.left?_eq_none.mp h.1
      have htake : ∀ strict : Bool, ({ r with strict } : Resolver).take t =
          ({ r.note t.site found with strict }, none) := fun _ => take_ok hfound
      obtain ⟨resolved, hrest⟩ := ih h.2 (r.note t.site found)
      refine ⟨resolved, fun strict => ?_⟩
      rw [takeAll_cons_taken (htake strict), hrest]
      rfl

/-- A lenient resolver takes everything down and notes what it left open. -/
theorem takeAll_lenient {r : Resolver} (h : r.strict = false) (ts : List Attempt) :
    ∃ r', r.takeAll ts = (r', none) ∧ r'.strict = false ∧
      r'.unresolved = r.unresolved ++ ts.filterMap Attempt.left? := by
  induction ts generalizing r with
  | nil => exact ⟨r, rfl, h, by simp⟩
  | cons t ts ih =>
      cases ht : t.outcome with
      | ok found =>
          obtain ⟨r', hrest, hstrict, hopen⟩ := @ih (r.note t.site found) h
          refine ⟨r', ?_, hstrict, ?_⟩
          · rw [takeAll_cons_taken (take_ok ht), hrest]
          · rw [hopen, List.filterMap_cons_none (Attempt.left?_ok ht)]
            rfl
      | error e =>
          obtain ⟨r', hrest, hstrict, hopen⟩ := @ih (r.leaveOpen t.site t.name e) h
          refine ⟨r', ?_, hstrict, ?_⟩
          · rw [takeAll_cons_taken (take_lenient ht h), hrest]
          · rw [hopen, List.filterMap_cons_some (Attempt.left?_error ht)]
            simp [leaveOpen]

/-- A strict resolver refuses the first name without a resolution. -/
theorem takeAll_strict {r : Resolver} (h : r.strict = true) {ts : List Attempt}
    {first : OpenReference} {more : List OpenReference}
    (hleft : ts.filterMap Attempt.left? = first :: more) :
    ∃ r' t e, r.takeAll ts = (r', some e) ∧ t ∈ ts ∧ t.outcome = .error e ∧
      t.left? = some first := by
  obtain ⟨before, t, after, rfl, hbefore, ht, -⟩ := List.filterMap_eq_cons_iff.mp hleft
  obtain ⟨resolved, hfound⟩ := takeAll_found hbefore r
  have hfront := hfound true
  rw [← h] at hfront
  cases hout : t.outcome with
  | ok found =>
      rw [Attempt.left?_ok hout] at ht
      contradiction
  | error e =>
      have hrefused : ({ r with resolved } : Resolver).take t = ({ r with resolved }, some e) :=
        take_strict hout h
      refine ⟨{ r with resolved }, t, e, ?_, by simp, hout, ht⟩
      rw [takeAll_append, hfront]
      exact takeAll_cons_refused hrefused after

/-- **What an error says**: looking up a name fails with an error about the
node, and with the attribute and the name if they are mentioned. -/
theorem error_of_resolveName {builtins : Builtins} {scope : Scope} {id : NodeId} {d : Declaration}
    {attr : String} {buckets : List Bucket} {text : String} {e : Error}
    (hroot : scope.arena.Valid scope.root)
    (h : resolveName builtins scope id d attr buckets text = .error e) :
    e = .unresolvedReference id attr text ∨ ∃ pfx, e = .unknownPrefix id pfx := by
  obtain ⟨root, hget⟩ := Arena.valid_iff.mp hroot
  simp only [resolveName, hget] at h
  split at h
  · next hspace =>
    injection h with h
    exact .inr ⟨_, h.symm⟩
  · next space hspace =>
    split at h
    · contradiction
    · split at h
      · contradiction
      · injection h with h
        exact .inl h.symm

end Resolver

/-! ## calls that leave a name open -/

namespace Walk.Call

def lefts (s : Session) (c : Walk.Call) : List OpenReference :=
  (c.attempts s).filterMap Attempt.left?

/-- Calls that leave nothing open make successful attempts only. -/
theorem left?_eq_none_of_lefts {s : Session} {cs : List Walk.Call}
    (h : ∀ c ∈ cs, c.lefts s = []) : ∀ t ∈ cs.flatMap (·.attempts s), t.left? = none := by
  intro t ht
  obtain ⟨c, hc, ht⟩ := List.mem_flatMap.mp ht
  exact List.filterMap_eq_nil_iff.mp (h c hc) t ht

/-- The first name that calls leave open is that of the first call that leaves one open. -/
theorem filterMap_left?_eq_cons {s : Session} {before after : List Walk.Call} {c : Walk.Call}
    (hbefore : ∀ b ∈ before, b.lefts s = []) {first : OpenReference} {rest : List OpenReference}
    (hc : c.lefts s = first :: rest) :
    ∃ more, ((before ++ c :: after).flatMap (·.attempts s)).filterMap Attempt.left? =
      first :: more := by
  have hnil : (before.flatMap (·.attempts s)).filterMap Attempt.left? = [] :=
    List.filterMap_eq_nil_iff.mpr (left?_eq_none_of_lefts hbefore)
  rw [lefts] at hc
  rw [List.flatMap_append, List.flatMap_cons, List.filterMap_append, List.filterMap_append, hnil,
    hc]
  exact ⟨_, rfl⟩

/-- An attempt of a call fails with an error about the node that was called. -/
theorem error_of_mem_attempts {s : Session} {c : Walk.Call} (hroot : s.arena.Valid c.root)
    {t : Attempt} {e : Error} (ht : t ∈ c.attempts s) (he : t.outcome = .error e) :
    t.site.node = c.node ∧ e.node? = some c.node ∧
      ∀ node attr name, e = .unresolvedReference node attr name →
        attr = t.site.attr ∧ name = t.name := by
  rw [attempts] at ht
  split at ht
  · contradiction
  · next d hd =>
    have hnode := Resolver.node_of_mem_attempts ht
    obtain ⟨search, -, hat⟩ := List.mem_flatMap.mp ht
    obtain ⟨text, -, rfl⟩ := List.mem_map.mp hat
    rcases Resolver.error_of_resolveName hroot he with rfl | ⟨pfx, rfl⟩
    · refine ⟨hnode, rfl, ?_⟩
      intro node attr name heq
      injection heq with _ hattr hname
      exact ⟨hattr.symm, hname.symm⟩
    · exact ⟨hnode, rfl, fun _ _ _ heq => by contradiction⟩

end Walk.Call

/-! ## two runs on one session -/

namespace Session

open Walk

/-- The calls of a walk of some registries belong to declarations. -/
theorem valid_root_of_mem_calls {s : Session} {registries : List Registry} {c : Call}
    (hc : c ∈ calls (route s.arena (enterAll registries))) : s.arena.Valid c.root := by
  obtain ⟨t, ht, hlead⟩ := leads_of_mem_calls_route hc
  obtain ⟨r, -, root, -, rfl⟩ := mem_enterAll.mp ht
  obtain ⟨-, rfl, hpath⟩ := hlead
  obtain ⟨n, hedge, -⟩ := Relation.TransGen.head'_iff.mp hpath
  exact hedge.valid_left

theorem valid_root_of_mem_itinerary {s : Session} {c : Call} (hc : c ∈ calls s.itinerary) :
    s.arena.Valid c.root :=
  valid_root_of_mem_calls hc

/-- If no call leaves a name open, both runs end in the same way. -/
theorem resolveReferences_found {s : Session} (hrooted : s.Rooted) (hclosed : s.arena.Closed)
    (h : ∀ c ∈ calls s.itinerary, c.lefts s = []) :
    ∃ after resolved, ∀ strict,
      s.resolveReferences strict = (after, .ok { builtins := s.builtins, strict, resolved }) := by
  obtain ⟨resolved, hfound⟩ :=
    Resolver.takeAll_found (Call.left?_eq_none_of_lefts h) { builtins := s.builtins }
  exact ⟨{ s.noted.marked (called s.itinerary) with diagnostics := s.noted.diagnostics.append [] },
    resolved, fun strict => resolveReferences_taken hrooted hclosed (hfound strict)⟩

/-- The first call that leaves a name open ends the strict run, with an error
that agrees with the note on that name. -/
theorem resolveReferences_left {s : Session} (hrooted : s.Rooted) (hclosed : s.arena.Closed)
    {before after : List Call} {c : Call} (hcalls : calls s.itinerary = before ++ c :: after)
    (hbefore : ∀ b ∈ before, b.lefts s = []) {first : OpenReference} {rest : List OpenReference}
    (hc : c.lefts s = first :: rest) :
    ∃ e, s.resolveReferences true = (s.noted.marked (before.map (·.node)), .error e) ∧
      first.node = c.node ∧ e.node? = some c.node ∧ first.reason = e.message ∧
      ∀ node attr name, e = .unresolvedReference node attr name →
        first.attr = attr ∧ first.name = name := by
  have hmem : c ∈ calls s.itinerary := by rw [hcalls]; simp
  obtain ⟨resolved, hfound⟩ :=
    Resolver.takeAll_found (Call.left?_eq_none_of_lefts hbefore) { builtins := s.builtins }
  obtain ⟨r', t, e, hrefused, ht, hout, hfirst⟩ :=
    Resolver.takeAll_strict (r := { builtins := s.builtins, strict := true, resolved }) rfl hc
  obtain ⟨hnode, herror, hsays⟩ :=
    Call.error_of_mem_attempts (valid_root_of_mem_itinerary hmem) ht hout
  rw [Attempt.left?_error hout, Option.some.injEq] at hfirst
  subst hfirst
  refine ⟨e, resolveReferences_refused hrooted hclosed hcalls (hfound true) hrefused, hnode, herror,
    rfl, ?_⟩
  intro node attr name heq
  obtain ⟨hattr, hname⟩ := hsays node attr name heq
  exact ⟨hattr.symm, hname.symm⟩

/-- **Strict and lenient resolution agree.**  The lenient run succeeds.  The
strict one does if and only if the lenient one leaves nothing open, and then
both end with the same session and the same findings.  Otherwise the error of
the strict run is the first note of the lenient run, and what the strict run
has flagged are the nodes that the lenient run called before it came to the
node of that note. -/
theorem resolveReferences_strict_lenient {s : Session} (hbuilt : s.Built)
    (hclosed : s.arena.Closed) :
    ∃ (lenient : Session) (r : Resolver) (log : List Call),
      s.resolveReferences false = (lenient, .ok r) ∧
      (s.walkAll Resolver.visit.logged ({ builtins := s.builtins, strict := false }, [])).2.1 =
        (r, log) ∧
      lenient.arena = s.arena.markAll (log.map (·.node)) ∧
      ((∃ r', (s.resolveReferences true).2 = .ok r') ↔ r.unresolved = []) ∧
      (∀ strict r', s.resolveReferences true = (strict, .ok r') →
        strict = lenient ∧ r' = { r with strict := true }) ∧
      ∀ strict e, s.resolveReferences true = (strict, .error e) →
        ∃ first more before c after,
          r.unresolved = first :: more ∧
          e.node? = some first.node ∧ first.reason = e.message ∧
          (∀ node attr name, e = .unresolvedReference node attr name →
            first.node = node ∧ first.attr = attr ∧ first.name = name) ∧
          log = before ++ c :: after ∧ c.node = first.node ∧
          first.node ∉ before.map (·.node) ∧
          strict.arena = s.arena.markAll (before.map (·.node)) := by
  have hrooted := hbuilt.rooted
  obtain ⟨r, htaken, -, hopen⟩ := Resolver.takeAll_lenient
    (r := { builtins := s.builtins, strict := false }) rfl
    ((calls s.itinerary).flatMap (·.attempts s))
  have hrun := resolveReferences_taken hrooted hclosed htaken
  obtain ⟨tally, hwalk⟩ := walkAll_taken hrooted hclosed rfl htaken
  refine ⟨_, r, calls s.itinerary, hrun, by rw [walkAll_logged hwalk], rfl, ?_⟩
  cases hfind : (calls s.itinerary).find? (fun c => decide (c.lefts s ≠ [])) with
  | none =>
      have hnone : ∀ c ∈ calls s.itinerary, c.lefts s = [] := by
        simpa using List.find?_eq_none.mp hfind
      obtain ⟨after, resolved, hboth⟩ := resolveReferences_found hrooted hclosed hnone
      rw [hboth false, Prod.mk.injEq, Except.ok.injEq] at hrun
      obtain ⟨rfl, rfl⟩ := hrun
      rw [hboth true]
      refine ⟨iff_of_true ⟨_, rfl⟩ rfl, ?_, ?_⟩
      · intro strict r' h
        rw [Prod.mk.injEq, Except.ok.injEq] at h
        exact ⟨h.1.symm, h.2.symm⟩
      · intro strict e h
        simp at h
  | some c =>
      obtain ⟨hc, before, after, hcalls, hbefore⟩ := List.find?_eq_some_iff_append.mp hfind
      have hbefore' : ∀ b ∈ before, b.lefts s = [] := by simpa using hbefore
      obtain ⟨first, rest, hlefts⟩ := List.exists_cons_of_ne_nil (of_decide_eq_true hc)
      obtain ⟨e, hstrict, hnode, herror, hreason, hsays⟩ :=
        resolveReferences_left hrooted hclosed hcalls hbefore' hlefts
      obtain ⟨more, hmore⟩ : ∃ more, r.unresolved = first :: more := by
        rw [hopen, hcalls, List.nil_append]
        exact Call.filterMap_left?_eq_cons hbefore' hlefts
      rw [hstrict]
      refine ⟨iff_of_false (by simp) (by simp [hmore]), ?_, ?_⟩
      · intro strict r' h
        simp at h
      · intro strict e' h
        rw [Prod.mk.injEq, Except.error.injEq] at h
        obtain ⟨rfl, rfl⟩ := h
        have hnodup : (called s.itinerary).Nodup := nodup_called_route _ _
        rw [called, hcalls, List.map_append, List.map_cons, List.nodup_append] at hnodup
        refine ⟨first, more, before, c, after, hmore, hnode ▸ herror, hreason, ?_, hcalls,
          hnode.symm, ?_, rfl⟩
        · rintro node attr name rfl
          exact ⟨hnode.trans (Option.some.inj herror).symm, hsays node attr name rfl⟩
        · intro hin
          exact hnodup.2.2 _ hin _ List.mem_cons_self hnode

/-! ## a document with names left open -/

/-- A document with an element whose attribute `type` holds a name that is
declared, one that is not, and one with an unbound prefix. -/
def openArena : Arena where
  nodes := #[
    { kind := .schema, space := "urn:a", attributes := .ofList [("xmlns:a", "urn:a")],
      children := [⟨1⟩, ⟨2⟩] },
    { kind := .complexType, name := some "Known", space := "urn:a" },
    { kind := .element, name := some "first", space := "urn:a",
      attributes := .ofList [("type", "a:Known a:Missing b:Other")] }]

def openSession : Session :=
  match ({ arena := openArena } : Session).addDocument ⟨0⟩ with
  | .ok s => s
  | .error _ => { arena := openArena }

theorem built_openSession : openSession.Built := by
  have hedit : Built { arena := openArena } := (Built.new .xsd true).edit openArena (by decide)
  have hadd : ({ arena := openArena } : Session).addDocument ⟨0⟩ = .ok openSession := rfl
  exact hedit.add hadd

/-- The agreement, for that document. -/
theorem resolveReferences_strict_lenient_open :
    openSession.Built ∧ openSession.arena.Closed ∧
      ∃ (lenient : Session) (r : Resolver),
        openSession.resolveReferences false = (lenient, .ok r) ∧
        ((∃ r', (openSession.resolveReferences true).2 = .ok r') ↔ r.unresolved = []) := by
  have hclosed : openSession.arena.Closed := by decide +kernel
  obtain ⟨lenient, r, -, hrun, -, -, hagree, -⟩ :=
    resolveReferences_strict_lenient built_openSession hclosed
  exact ⟨built_openSession, hclosed, lenient, r, hrun, hagree⟩

end Session

end SchemaCatalog
