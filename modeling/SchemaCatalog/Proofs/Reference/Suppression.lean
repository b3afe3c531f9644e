import SchemaCatalog.Proofs.Reference.Exactness
import SchemaCatalog.Proofs.Walk.History

/-!
# SchemaCatalog.Proofs.Reference.Suppression

The table of built-in names is asked in two places.  A registry that is to file
a declaration asks with the namespace of the declaration, and only if that is
its own; the resolver asks with the namespace that a name stands for.  Whatever
the table says, the two agree (`references_to_filed`): a reference to a name
that a document has brought into its namespace is never left open, be it that
the declaration was filed or that it was suppressed.

A declaration that was filed may be replaced later, and the name may be found
in an earlier bucket.  What stays is that the name leads somewhere
(`Retains.run`), and a reference needs no more.
-/

namespace SchemaCatalog

/-- Declarations may change in every way, but none is removed. -/
def Arena.NoSmaller (a b : Arena) : Prop := a.size ≤ b.size

namespace Session

open Walk

/-! ## names that lead somewhere -/

/-- Names that lead somewhere in `s` do so in `t`, and the same names are built
in. -/
structure Retains (s t : Session) : Prop where
  builtins : t.builtins = s.builtins
  lookup : ∀ space r b name, s.registries.get? space = some r → r.lookup b name ≠ none →
    ∃ r', t.registries.get? space = some r' ∧ r'.lookup b name ≠ none

theorem Retains.of_eq {s t : Session} (hbuiltins : t.builtins = s.builtins)
    (hregistries : t.registries = s.registries) : s.Retains t where
  builtins := hbuiltins
  lookup := by
    intro space r b name hr hfound
    exact ⟨r, by rw [hregistries, hr], hfound⟩

/-- What is retained by one step and the next is retained by both. -/
theorem Retains.trans {s t u : Session} (hst : s.Retains t) (htu : t.Retains u) : s.Retains u where
  builtins := htu.builtins.trans hst.builtins
  lookup := by
    intro space r b name hr hfound
    obtain ⟨r', hr', hfound'⟩ := hst.lookup space r b name hr hfound
    exact htu.lookup space r' b name hr' hfound'

/-- A new document retains the names that have been filed. -/
theorem Retains.add {s t : Session} {root : NodeId} {d : Declaration} (h : s.Rooted)
    (hadd : s.Addition root d t) : s.Retains t where
  builtins := hadd.builtins
  lookup := by
    intro space r b name hr hfound
    rw [hadd.registries]
    by_cases hspace : space = Registry.targetSpaceOf d
    · refine ⟨_, by rw [hspace, Table.get?_insert_self], ?_⟩
      rw [lookup_joined h, targetSpace_fragment, ← hspace, hr, Option.bind_some, ne_eq,
        Option.or_eq_none_iff, not_and]
      exact fun _ => hfound
    · exact ⟨r, by rw [Table.get?_insert_of_ne _ _ hspace, hr], hfound⟩

section

variable {s t : Session} {xs : List Answer}

/-- Every step takes a built session to a built one. -/
theorem Built.step (h : s.Built) (hstep : Step Arena.NoSmaller s xs t) : t.Built := by
  cases hstep with
  | edit b hb => exact h.edit b hb
  | add hadd => exact h.add hadd
  | refuse => exact h
  | walk hwalk =>
      cases hwalk with
      | all visit state => exact h.walkAll visit state
      | space space visit state => exact h.walkSpace space visit state
      | resolve strict => exact h.resolve strict

/-- Every step retains the names that have been filed. -/
theorem Retains.step (h : s.Built) (hstep : Step Arena.NoSmaller s xs t) : s.Retains t := by
  cases hstep with
  | edit b => exact .of_eq rfl rfl
  | add hadd =>
      obtain ⟨d, hadd⟩ := addition_of_addDocument hadd
      exact .add h.rooted hadd
  | refuse => exact .of_eq rfl rfl
  | walk hwalk =>
      obtain ⟨-, hregistries, hbuiltins⟩ := hwalk.account
      exact .of_eq hbuiltins hregistries

/-- **No operation loses a name.** -/
theorem Retains.run (h : s.Built) (hrun : Run Arena.NoSmaller s xs t) :
    t.Built ∧ s.Retains t := by
  induction hrun with
  | start => exact ⟨h, .of_eq rfl rfl⟩
  | step _ hstep ih => exact ⟨ih.1.step hstep, ih.2.trans (.step ih.1 hstep)⟩

end

end Session

/-! ## names that resolve -/

namespace Resolver

section

variable {builtins : Builtins} {scope : Scope} {root node : Declaration} {buckets : List Bucket}
  {text space name : String} (id : NodeId) (attr : String)

/-- A built-in name is resolved before any registry is asked. -/
theorem resolveName_builtin (hroot : scope.arena.get? scope.root = some root)
    (hnamed : Named root node text space name) (hbuiltin : builtins.contains space name = true) :
    resolveName builtins scope id node attr buckets text = .ok (.builtin space name) :=
  resolveName_of_outcome hroot (.builtin hnamed hbuiltin)

/-- A name that one of the buckets has is found, there or in an earlier one. -/
theorem resolveName_declared (hroot : scope.arena.get? scope.root = some root)
    (hnamed : Named root node text space name) (hbuiltin : builtins.contains space name = false)
    {r : Registry} (hr : scope.registries.get? space = some r) {b : Bucket} (hb : b ∈ buckets)
    (hfound : r.lookup b name ≠ none) :
    ∃ b' ∈ buckets, ∃ target,
      resolveName builtins scope id node attr buckets text = .ok (.declared space b' target) := by
  rcases findIn_cases r name space buckets with
    ⟨-, hnone⟩ | ⟨before, b', after, target, rfl, hbefore, htarget⟩
  · exact absurd (hnone b hb) hfound
  · refine ⟨b', by simp, target, ?_⟩
    exact resolveName_of_outcome hroot (.declared hnamed hbuiltin hr rfl hbefore htarget)

end

end Resolver

/-! ## what a run comes to -/

namespace Resolver

open Walk

/-- A refusal is the failure of some attempt. -/
theorem exists_error_of_takeAll {r r' : Resolver} {ts : List Attempt} {e : Error}
    (h : r.takeAll ts = (r', some e)) : ∃ t ∈ ts, t.outcome = .error e := by
  induction ts generalizing r with
  | nil => simp [takeAll] at h
  | cons t ts ih =>
      have later : ∀ {r₁ : Resolver}, r.take t = (r₁, none) →
          ∃ t' ∈ t :: ts, t'.outcome = .error e := by
        intro r₁ htake
        rw [takeAll_cons_taken htake] at h
        obtain ⟨t', ht', herror⟩ := ih h
        exact ⟨t', List.mem_cons_of_mem _ ht', herror⟩
      cases hout : t.outcome with
      | ok found => exact later (take_ok hout)
      | error e' =>
          cases hstrict : r.strict with
          | false => exact later (take_lenient hout hstrict)
          | true =>
              rw [takeAll_cons_refused (take_strict hout hstrict), Prod.mk.injEq,
                Option.some.injEq] at h
              exact ⟨t, List.mem_cons_self, h.2 ▸ hout⟩

/-- What is noted as open was so before, or some attempt has left it open. -/
theorem mem_unresolved_takeAll {r r' : Resolver} {ts : List Attempt} (h : r.takeAll ts = (r', none))
    {o : OpenReference} (ho : o ∈ r'.unresolved) :
    o ∈ r.unresolved ∨ ∃ t ∈ ts, t.left? = some o := by
  induction ts generalizing r with
  | nil =>
      obtain rfl : r = r' := congrArg Prod.fst h
      exact .inl ho
  | cons t ts ih =>
      cases hout : t.outcome with
      | ok found =>
          rw [takeAll_cons_taken (take_ok hout)] at h
          refine (ih h).imp_right fun hlater => ?_
          obtain ⟨t', ht', hleft⟩ := hlater
          exact ⟨t', List.mem_cons_of_mem _ ht', hleft⟩
      | error e =>
          cases hstrict : r.strict with
          | true => simp [takeAll_cons_refused (take_strict hout hstrict)] at h
          | false =>
              rw [takeAll_cons_taken (take_lenient hout hstrict)] at h
              rcases ih h with hbefore | ⟨t', ht', hleft⟩
              · rcases List.mem_append.mp hbefore with hbefore | hnew
                · exact .inl hbefore
                · refine .inr ⟨t, List.mem_cons_self, ?_⟩
                  rw [Attempt.left?_error hout, List.mem_singleton.mp hnew]
              · exact .inr ⟨t', List.mem_cons_of_mem _ ht', hleft⟩

/-- A walk that ends well has taken down all attempts of its route; one that
fails has met a node that does not exist or an attempt that fails. -/
theorem follow_visit_cases {s : Session} {es : List Event}
    (hvalid : ∀ c ∈ calls es, s.arena.Valid c.node) (ids : List NodeId) {r : Resolver}
    (hr : r.builtins = s.builtins) (tally : Tally) {w : Walk Resolver} {fault : Option Error}
    (h : follow visit s.registries ⟨s.arena.markAll ids, r, tally⟩ es = (w, fault)) :
    (fault = none → r.takeAll ((calls es).flatMap (·.attempts s)) = (w.state, none)) ∧
      ∀ e, fault = some e → (∃ c ∈ calls es, ∃ t ∈ c.attempts s, t.outcome = .error e) ∨
        ∃ id, e = .unknownNode id := by
  induction es generalizing ids r tally with
  | nil =>
      obtain ⟨rfl, rfl⟩ := Prod.mk.inj h
      exact ⟨fun _ => rfl, fun e he => by contradiction⟩
  | cons event es ih =>
      cases event with
      | skip => exact ih hvalid ids hr tally.skip h
      | unknown id =>
          obtain ⟨-, rfl⟩ := Prod.mk.inj h
          exact ⟨fun hnone => by contradiction, fun e he => .inr ⟨id, (Option.some.inj he).symm⟩⟩
      | call c =>
          rw [calls_call, List.forall_mem_cons] at hvalid
          have hvisit := visit_call hvalid.1 ids hr
          rw [calls_call, List.flatMap_cons, takeAll_append]
          cases hc : r.takeAll (c.attempts s) with
          | mk r₁ fault₁ =>
              rw [hc] at hvisit
              cases fault₁ with
              | some e =>
                  rw [follow_call_refused hvisit] at h
                  obtain ⟨-, rfl⟩ := Prod.mk.inj h
                  refine ⟨fun hnone => by contradiction, fun e' he => .inl ?_⟩
                  obtain ⟨t, ht, herror⟩ := exists_error_of_takeAll hc
                  exact ⟨c, List.mem_cons_self, t, ht, Option.some.inj he ▸ herror⟩
              | none =>
                  have hmarks : (s.arena.markAll ids).markProcessed c.node =
                      s.arena.markAll (ids ++ [c.node]) := by
                    rw [Arena.markAll_append]
                    rfl
                  rw [follow_call_accepted hvisit, hmarks] at h
                  obtain ⟨hok, herror⟩ :=
                    ih hvalid.2 (ids ++ [c.node]) ((builtins_of_takeAll hc).trans hr) _ h
                  refine ⟨hok, fun e he => (herror e he).imp_left ?_⟩
                  rintro ⟨c', hc', t, ht, hout⟩
                  exact ⟨c', List.mem_cons_of_mem _ hc', t, ht, hout⟩

end Resolver

namespace Session

open Walk

/-- Resolving takes the attempts of the itinerary, up to the first that is refused. -/
theorem resolveReferences_cases (s : Session) (strict : Bool) :
    (∀ after r, s.resolveReferences strict = (after, .ok r) →
      ({ builtins := s.builtins, strict } : Resolver).takeAll
        ((calls s.itinerary).flatMap (·.attempts s)) = (r, none)) ∧
      ∀ after e, s.resolveReferences strict = (after, .error e) →
        (∃ c ∈ calls s.itinerary, ∃ t ∈ c.attempts s, t.outcome = .error e) ∨
          ∃ id, e = .unknownNode id := by
  have hout := (resolveReferences_walked s strict).2
  rw [walkAll_eq_follow] at hout
  cases hfollow : follow Resolver.visit s.registries
      { arena := s.arena, state := { builtins := s.builtins, strict } } s.itinerary with
  | mk w fault =>
      obtain ⟨hok, herror⟩ := Resolver.follow_visit_cases (fun c hc => valid_of_mem_itinerary hc) []
        rfl {} hfollow
      rw [hfollow] at hout
      constructor
      · intro after r h
        rw [h] at hout
        cases fault with
        | some e => contradiction
        | none =>
            obtain rfl : r = w.state := Except.ok.inj hout
            exact hok rfl
      · intro after e h
        rw [h] at hout
        cases fault with
        | none => contradiction
        | some e' => exact herror e (congrArg some (Except.error.inj hout).symm)

end Session

/-! ## references -/

/-- Below a call, the word `text` of the attribute `attr`, which searches some
buckets, stands for a name of a namespace. -/
def Walk.Call.Refers (s : Session) (c : Walk.Call) (attr : String) (buckets : List Bucket)
    (text space name : String) : Prop :=
  ∃ root node, s.arena.get? c.root = some root ∧ s.arena.get? c.node = some node ∧
    node.kind.Searches attr buckets ∧
    (∃ words, Text.Words ((node.attr? attr).getD "").toList words ∧ text.toList ∈ words) ∧
    Named root node text space name

/-- What a reference comes to that searches some buckets for the name of a
declaration, if it fits what a registry of the namespace has made of the
declaration. -/
structure Resolution.Fits (space name : String) (buckets : List Bucket) (d : Declaration)
    (filing : Filing) (found : Resolution) : Prop where
  suppressed : filing = .builtin → found = .builtin space name
  inserted : filing ≠ .builtin → d.space = space →
    ∃ b ∈ buckets, ∃ target, found = .declared space b target

namespace Session

open Walk

section

variable {s : Session} {c : Call} {attr : String} {buckets : List Bucket}
  {text space name : String}

/-- A reference is looked up as the call has it. -/
theorem outcome_of_mem_attempts {node : Declaration} (hnode : s.arena.get? c.node = some node)
    (hsearch : (attr, buckets) ∈ Resolver.searches node.kind) {t : Attempt}
    (ht : t ∈ c.attempts s) (hattr : t.site.attr = attr) (hname : t.name = text) :
    t.outcome = Resolver.resolveName s.builtins ⟨s.arena, c.root, c.registry, s.registries⟩ c.node
      node attr buckets text := by
  have hsite : t.site = ⟨c.node, attr⟩ := by
    rw [← node_of_mem_call_attempts ht, ← hattr]
  simp only [Call.attempts, hnode] at ht
  have hmem : t ∈ (Resolver.attempts s.builtins ⟨s.arena, c.root, c.registry, s.registries⟩ c.node
      node).filter (·.site = ⟨c.node, attr⟩) := List.mem_filter.mpr ⟨ht, decide_eq_true hsite⟩
  rw [Resolver.filter_attempts hsearch] at hmem
  obtain ⟨text', -, rfl⟩ := List.mem_map.mp hmem
  rw [← hname]

/-- The attempt at a word of an attribute. -/
theorem exists_attempt_of_mem_words {node : Declaration} (hnode : s.arena.get? c.node = some node)
    (hsearch : (attr, buckets) ∈ Resolver.searches node.kind) (htext : text ∈ wordsOf node attr) :
    ∃ t ∈ c.attempts s, t.site = ⟨c.node, attr⟩ ∧ t.name = text := by
  have hat : ∃ t ∈ Resolver.attemptsAt s.builtins ⟨s.arena, c.root, c.registry, s.registries⟩
      c.node node (attr, buckets), t.site = ⟨c.node, attr⟩ ∧ t.name = text :=
    ⟨_, List.mem_map.mpr ⟨text, htext, rfl⟩, rfl, rfl⟩
  obtain ⟨t, ht, hsite, hname⟩ := hat
  refine ⟨t, ?_, hsite, hname⟩
  simp only [Call.attempts, hnode]
  exact List.mem_flatMap.mpr ⟨_, hsearch, ht⟩

end

theorem site_ext {p q : Site} (hnode : p.node = q.node) (hattr : p.attr = q.attr) : p = q := by
  cases p
  cases q
  exact congrArg₂ Site.mk hnode hattr

/-- All attempts of a walk at a word at a site lead to the same end. -/
def Unanimous (s : Session) (site : Site) (text : String) (found : Resolution) : Prop :=
  ∀ t ∈ (calls s.itinerary).flatMap (·.attempts s), t.site = site → t.name = text →
    t.outcome = .ok found

/-- A node is called once, in one context, so the attempts at it are unanimous. -/
theorem unanimous_of_mem_calls {s : Session} {c : Call} (hc : c ∈ calls s.itinerary)
    {attr : String} {buckets : List Bucket} {text : String} {node : Declaration}
    (hnode : s.arena.get? c.node = some node)
    (hsearch : (attr, buckets) ∈ Resolver.searches node.kind) {found : Resolution}
    (hfound : Resolver.resolveName s.builtins ⟨s.arena, c.root, c.registry, s.registries⟩ c.node
      node attr buckets text = .ok found) :
    s.Unanimous ⟨c.node, attr⟩ text found := by
  have hnodup : ((calls s.itinerary).map (·.node)).Nodup := nodup_called_route _ _
  intro t ht hsite hname
  obtain ⟨c', hc', ht⟩ := List.mem_flatMap.mp ht
  have hsame : c'.node = c.node := by
    rw [← node_of_mem_call_attempts ht, hsite]
  obtain rfl := List.inj_on_of_nodup_map hnodup hc' hc hsame
  rw [outcome_of_mem_attempts hnode hsearch ht (congrArg Site.attr hsite) hname, hfound]

section

variable {s : Session} {site : Site} {text : String} {found : Resolution} {strict : Bool}

/-- A reference that resolves is no reason for a run to fail. -/
theorem Unanimous.ne_error (h : s.Unanimous site text found) (after : Session) :
    s.resolveReferences strict ≠
      (after, .error (.unresolvedReference site.node site.attr text)) := by
  intro hrun
  rcases (resolveReferences_cases s strict).2 after _ hrun with ⟨c, hc, t, ht, hfail⟩ | ⟨id, hid⟩
  · obtain ⟨hnode, hmention, hsays⟩ :=
      Call.error_of_mem_attempts (valid_root_of_mem_itinerary hc) ht hfail
    obtain ⟨hattr, hname⟩ := hsays _ _ _ rfl
    have hsite : t.site = site := site_ext (hnode.trans (Option.some.inj hmention).symm) hattr.symm
    rw [h t (List.mem_flatMap.mpr ⟨c, hc, ht⟩) hsite hname.symm] at hfail
    contradiction
  · contradiction

variable {r : Resolver}

/-- A reference that resolves is not left open. -/
theorem Unanimous.not_left (h : s.Unanimous site text found)
    (htaken : ({ builtins := s.builtins, strict } : Resolver).takeAll
      ((calls s.itinerary).flatMap (·.attempts s)) = (r, none)) {o : OpenReference}
    (ho : o ∈ r.unresolved) : ¬ (o.node = site.node ∧ o.attr = site.attr ∧ o.name = text) := by
  rintro ⟨hnode, hattr, hname⟩
  rcases Resolver.mem_unresolved_takeAll htaken ho with hnil | ⟨t, ht, hleft⟩
  · contradiction
  · cases houtcome : t.outcome with
    | ok found' =>
        rw [Attempt.left?_ok houtcome] at hleft
        contradiction
    | error e =>
        rw [Attempt.left?_error houtcome, Option.some.injEq] at hleft
        subst hleft
        rw [h t ht (site_ext hnode hattr) hname] at houtcome
        contradiction

/-- What an attempt has found is among the resolutions of its site. -/
theorem exists_resolution
    (htaken : ({ builtins := s.builtins, strict } : Resolver).takeAll
      ((calls s.itinerary).flatMap (·.attempts s)) = (r, none)) {t : Attempt}
    (ht : t ∈ (calls s.itinerary).flatMap (·.attempts s)) (hsite : t.site = site)
    (hfound : t.outcome = .ok found) :
    ∃ all, r.resolution? site.node site.attr = some all ∧ found ∈ all := by
  have hempty : ({ builtins := s.builtins, strict } : Resolver).resolved.get? site =
      Resolver.kept [] := rfl
  have hkept := Resolver.resolved_takeAll htaken hempty
  have hmem : found ∈ (((calls s.itinerary).flatMap (·.attempts s)).filter
      (·.site = site)).filterMap Attempt.found? :=
    List.mem_filterMap.mpr ⟨t, List.mem_filter.mpr ⟨ht, decide_eq_true hsite⟩,
      Attempt.found?_ok hfound⟩
  refine ⟨_, ?_, hmem⟩
  rw [Resolver.resolution?, hkept, List.nil_append, Resolver.kept,
    if_neg (List.ne_nil_of_mem hmem)]

end

/-- **A reference that resolves** is found by every run in which it is met, and
left open by none. -/
theorem found_of_resolves {s : Session} {strict : Bool} {x : Answer}
    (hx : x ∈ s.resolverAnswers strict) {attr : String} {buckets : List Bucket} {text : String}
    {node : Declaration} (hnode : s.arena.get? x.call.node = some node)
    (hsearch : (attr, buckets) ∈ Resolver.searches node.kind) (htext : text ∈ wordsOf node attr)
    {found : Resolution}
    (hfound : Resolver.resolveName s.builtins
      ⟨s.arena, x.call.root, x.call.registry, s.registries⟩ x.call.node node attr buckets text =
        .ok found) :
    (∀ after, s.resolveReferences strict ≠
      (after, .error (.unresolvedReference x.call.node attr text))) ∧
    ∀ after r, s.resolveReferences strict = (after, .ok r) →
      (∀ o ∈ r.unresolved, ¬ (o.node = x.call.node ∧ o.attr = attr ∧ o.name = text)) ∧
      ∃ all, r.resolution? x.call.node attr = some all ∧ found ∈ all := by
  have hcall : x.call ∈ calls s.itinerary :=
    (walkAll_witnessed s Resolver.visit _).2.calls.subset (List.mem_map_of_mem hx)
  have hunanimous := unanimous_of_mem_calls hcall hnode hsearch hfound
  refine ⟨fun after => hunanimous.ne_error after, fun after r h => ?_⟩
  have htaken := (resolveReferences_cases s strict).1 after r h
  obtain ⟨t, ht, hsite, hname⟩ := exists_attempt_of_mem_words hnode hsearch htext
  have hmem := List.mem_flatMap.mpr ⟨x.call, hcall, ht⟩
  exact ⟨fun o ho => hunanimous.not_left htaken ho,
    exists_resolution htaken hmem hsite (hunanimous t hmem hsite hname)⟩

/-! ## names of added documents -/

/-- The registry of a document's namespace has the names that the document's
children take. -/
theorem lookup_of_filedUnder {s t : Session} {root c : NodeId} {d e : Declaration} (h : s.Rooted)
    (hadd : s.Addition root d t) (hc : c ∈ d.children) (he : s.arena.get? c = some e) {b : Bucket}
    {name : String} (hfiled : e.FiledUnder s.builtins (Registry.targetSpaceOf d) b name) :
    ∃ r, t.registries.get? (Registry.targetSpaceOf d) = some r ∧ r.lookup b name ≠ none := by
  have hmem : (c, e) ∈ s.arena.look d.children := Arena.mem_look.mpr ⟨hc, he⟩
  have hfragment : (s.fragment root d).lookup b name ≠ none :=
    Registry.lookup_fileLooked_ne_none _ _ _ hmem hfiled
  refine ⟨_, by rw [hadd.registries, Table.get?_insert_self], ?_⟩
  rw [lookup_joined h, ne_eq, Option.or_eq_none_iff, not_and_or]
  exact .inl hfragment

/-- **What becomes of a named child** of one of the six kinds: it is suppressed if
its name is built in, and filed under its name if not. -/
theorem filing_of_child {s : Session} {root c : NodeId} {d e : Declaration} {b : Bucket}
    {name : String} {filing : Filing} (he : s.arena.get? c = some e)
    (hbucket : e.kind = b.kind) (hname : e.name = some name)
    (hfiling : (c, filing) ∈
      Registry.filingsLooked s.builtins (.ofRoot root d) (s.arena.look d.children)) :
    (filing = .builtin ∨ ∃ replaced, filing = .declared b name replaced) ∧
      (filing = .builtin ↔ e.IsBuiltin s.builtins (Registry.targetSpaceOf d)) := by
  obtain ⟨e', r, hlook, hspace, hfiled⟩ := Registry.exists_of_mem_filingsLooked _ _ _ hfiling
  obtain rfl : e = e' := Option.some.inj (he.symm.trans (Arena.mem_look.mp hlook).2)
  have hspace : r.targetSpace = Registry.targetSpaceOf d := hspace
  rw [← hspace]
  by_cases hbuiltin : e.IsBuiltin s.builtins r.targetSpace
  · have hsuppressed : filing = .builtin :=
      hfiled.trans (by rw [Registry.filing_fileDeclaration, if_pos hbuiltin])
    exact ⟨.inl hsuppressed, iff_of_true hsuppressed hbuiltin⟩
  · have hinserted : filing = .declared b name (r.lookup b name) :=
      hfiled.trans (Registry.filing_of_filedUnder _ _ _ _ ⟨hbucket, hname, hbuiltin⟩)
    exact ⟨.inr ⟨_, hinserted⟩, iff_of_false (hinserted ▸ Filing.noConfusion) hbuiltin⟩

/-- **A name that a document has brought in resolves**, in every session that
comes of it: to a built-in name if its declaration was suppressed, and to a
declaration if that was filed and belongs to the namespace. -/
theorem exists_fitting {s₀ s₁ s : Session} {root c : NodeId} {d e : Declaration}
    (hbuilt : s₀.Built) (hadd : s₀.Addition root d s₁) (hretains : s₁.Retains s)
    (hc : c ∈ d.children) (he : s₀.arena.get? c = some e) {b : Bucket} {name : String}
    (hbucket : e.kind = b.kind) (hname : e.name = some name) {filing : Filing}
    (hfiling : filing = .builtin ↔ e.IsBuiltin s₀.builtins (Registry.targetSpaceOf d))
    (scope : Scope) (hscope : scope.registries = s.registries) {root' node : Declaration}
    (hroot' : scope.arena.get? scope.root = some root') {text : String}
    (hnamed : Named root' node text (Registry.targetSpaceOf d) name) {buckets : List Bucket}
    (hb : b ∈ buckets) (id : NodeId) (attr : String) :
    ∃ found, Resolver.resolveName s.builtins scope id node attr buckets text = .ok found ∧
      found.Fits (Registry.targetSpaceOf d) name buckets e filing := by
  have hbuiltins : s.builtins = s₀.builtins := hretains.builtins.trans hadd.builtins
  rw [hbuiltins]
  cases hknown : s₀.builtins.contains (Registry.targetSpaceOf d) name with
  | true =>
      refine ⟨_, Resolver.resolveName_builtin id attr hroot' hnamed hknown, fun _ => rfl, ?_⟩
      intro hnot hspace
      exact absurd (hfiling.mpr ⟨hspace, name, hname, hknown⟩) hnot
  | false =>
      have hbuiltin : ¬ e.IsBuiltin s₀.builtins (Registry.targetSpaceOf d) := by
        rintro ⟨-, name', hname', hknown'⟩
        obtain rfl : name = name' := Option.some.inj (hname.symm.trans hname')
        rw [hknown] at hknown'
        contradiction
      obtain ⟨r, hr, hfound⟩ :=
        lookup_of_filedUnder hbuilt.rooted hadd hc he ⟨hbucket, hname, hbuiltin⟩
      obtain ⟨r', hr', hfound'⟩ := hretains.lookup _ r b name hr hfound
      rw [← hscope] at hr'
      obtain ⟨b', hb', target, hresolve⟩ :=
        Resolver.resolveName_declared id attr hroot' hnamed hknown hr' hb hfound'
      exact ⟨_, hresolve, fun h => absurd (hfiling.mp h) hbuiltin,
        fun _ _ => ⟨b', hb', target, rfl⟩⟩

/-- **Suppression and resolution agree.**  Let a document be added and the
session then go through any operations.  Each child of the document that has a
name and one of the six kinds was suppressed as built-in or filed under its
name.  A reference that stands for its name in the namespace of the document,
in an attribute that searches its bucket, resolves: to the built-in name if the
child was suppressed, and to a declaration if it was filed and belongs to the
namespace itself.  No run that meets the reference leaves it open, and one that
ends well has found what it resolves to. -/
theorem references_to_filed {s₀ s₁ s : Session} {root c : NodeId} {d e : Declaration}
    {fragment : Registry} {filings : List (NodeId × Filing)} {b : Bucket} {space name : String}
    {answers : List Answer} (hbuilt : s₀.Built) (hroot : s₀.arena.get? root = some d)
    (hspace : (d.attr? "targetNamespace").getD d.space = space)
    (hfile : (Registry.ofRoot root d).fileChildren s₀.builtins s₀.arena root =
      (fragment, .ok filings))
    (hadd : s₀.addDocument root = .ok s₁) (hrun : Run Arena.NoSmaller s₁ answers s)
    (hc : c ∈ d.children) (he : s₀.arena.get? c = some e)
    (hbucket : e.kind = b.kind) (hname : e.name = some name) :
    (∃ filing, (c, filing) ∈ filings) ∧
    ∀ filing, (c, filing) ∈ filings →
      (filing = .builtin ∨ ∃ replaced, filing = .declared b name replaced) ∧
      (∀ (scope : Scope) (root' node : Declaration) (id : NodeId) (attr : String)
          (buckets : List Bucket) (text : String),
        scope.registries = s.registries → scope.arena.get? scope.root = some root' →
        Named root' node text space name → b ∈ buckets →
        ∃ found, Resolver.resolveName s.builtins scope id node attr buckets text = .ok found ∧
          found.Fits space name buckets e filing) ∧
      ∀ (strict : Bool) (x : Answer) (attr : String) (buckets : List Bucket) (text : String),
        x ∈ s.resolverAnswers strict →
        x.call.Refers s attr buckets text space name → b ∈ buckets →
        (∀ after, s.resolveReferences strict ≠
          (after, .error (.unresolvedReference x.call.node attr text))) ∧
        ∀ after r, s.resolveReferences strict = (after, .ok r) →
          (∀ o ∈ r.unresolved, ¬ (o.node = x.call.node ∧ o.attr = attr ∧ o.name = text)) ∧
          ∃ all found, r.resolution? x.call.node attr = some all ∧ found ∈ all ∧
            found.Fits space name buckets e filing := by
  obtain rfl : Registry.targetSpaceOf d = space := hspace
  have hretains := (Retains.run (hbuilt.add hadd) hrun).2
  obtain ⟨d', hadd⟩ := addition_of_addDocument hadd
  obtain rfl : d = d' := Option.some.inj (hroot.symm.trans hadd.get?_root)
  simp only [Registry.fileChildren, hroot] at hfile
  obtain ⟨-, -, rfl⟩ := Registry.fileAll_eq_ok hfile
  have hmem : (c, e) ∈ s₀.arena.look d.children := Arena.mem_look.mpr ⟨hc, he⟩
  refine ⟨Registry.exists_filing_of_mem _ _ _ hmem, fun filing hfiling => ?_⟩
  obtain ⟨hcases, hiff⟩ := filing_of_child he hbucket hname hfiling
  refine ⟨hcases, ?_, ?_⟩
  · intro scope root' node id attr buckets text hscope hroot' hnamed hb
    exact exists_fitting hbuilt hadd hretains hc he hbucket hname hiff scope hscope hroot' hnamed hb
      id attr
  · rintro strict x attr buckets text hx ⟨root', node, hroot', hnode, hsearch, htext, hnamed⟩ hb
    obtain ⟨found, hfound, hfits⟩ := exists_fitting hbuilt hadd hretains hc he hbucket hname hiff
      ⟨s.arena, x.call.root, x.call.registry, s.registries⟩ rfl hroot' hnamed hb x.call.node attr
    obtain ⟨herror, hok⟩ := found_of_resolves hx hnode (Resolver.mem_searches_iff.mpr hsearch)
      (mem_wordsOf_iff.mpr htext) hfound
    refine ⟨herror, fun after r h => ?_⟩
    obtain ⟨hopen, all, hall, hmem⟩ := hok after r h
    exact ⟨hopen, all, found, hall, hmem, hfits⟩

/-! A document of a namespace with a name built in, which declares this name and
another one, an element that refers to both, and a reference to this element. -/

def extendedArena : Arena where
  nodes := #[
    { kind := .schema, space := "urn:a", children := [⟨1⟩, ⟨2⟩, ⟨3⟩, ⟨4⟩] },
    { kind := .complexType, name := some "Known", space := "urn:a" },
    { kind := .complexType, name := some "Type", space := "urn:a" },
    { kind := .element, name := some "Item", space := "urn:a"
      attributes := .ofList [("type", "Known Type")] },
    { kind := .element, space := "urn:a", attributes := .ofList [("ref", "Item")] }]

/-- The session before the document is added. -/
def extensibleSession : Session where
  arena := extendedArena
  builtins := Builtins.xsd.extend "urn:a" ["Known"]

def extendedSession : Session := ((extensibleSession.addDocument ⟨0⟩).toOption).getD {}

def extendedRegistry : Registry where
  targetSpace := "urn:a"
  roots := [⟨0⟩]
  declarations := ((PerBucket.fill ∅).set .complexTypes (.ofList [("Type", ⟨2⟩)])).set .elements
    (.ofList [("Item", ⟨3⟩)])

theorem built_extensibleSession : extensibleSession.Built :=
  (Built.new _ true).edit extendedArena (by decide)

theorem itinerary_extendedSession : extendedSession.itinerary =
    [.call ⟨⟨1⟩, ⟨0⟩, extendedRegistry⟩, .call ⟨⟨2⟩, ⟨0⟩, extendedRegistry⟩,
      .call ⟨⟨3⟩, ⟨0⟩, extendedRegistry⟩, .call ⟨⟨4⟩, ⟨0⟩, extendedRegistry⟩] := by
  have hregistries : extendedSession.registries.values = [extendedRegistry] := rfl
  have harena : extendedSession.arena = extendedArena := rfl
  rw [itinerary, hregistries, harena]
  simp [enterAll, extendedArena, extendedRegistry, route, Task.below, Arena.get?,
    Arena.markProcessed, Arena.modify]

/-- Every call is answered, as the run ends well. -/
theorem exists_answer_extendedSession {n : NodeId} (hn : n ∈ [(⟨3⟩ : NodeId), ⟨4⟩]) :
    ∃ x ∈ extendedSession.resolverAnswers true, x.call = ⟨n, ⟨0⟩, extendedRegistry⟩ := by
  rw [resolverAnswers, answers, walkAll_eq_follow, itinerary_extendedSession]
  simp only [List.mem_cons, List.not_mem_nil, or_false] at hn
  rcases hn with rfl | rfl
  · exact ⟨_, .tail _ (.tail _ (.head _)), rfl⟩
  · exact ⟨_, .tail _ (.tail _ (.tail _ (.head _))), rfl⟩

/-- The first name is found to be built in, the second one to be declared, and
so is the element. -/
theorem references_to_filed_extended :
    extensibleSession.Built ∧ extensibleSession.addDocument ⟨0⟩ = .ok extendedSession ∧
      ∃ (after : Session) (r : Resolver) (types items : List Resolution),
        extendedSession.resolveReferences true = (after, .ok r) ∧
        r.resolution? ⟨3⟩ "type" = some types ∧ .builtin "urn:a" "Known" ∈ types ∧
        (∃ b target, .declared "urn:a" b target ∈ types) ∧
        r.resolution? ⟨4⟩ "ref" = some items ∧ ∃ target, .declared "urn:a" .elements target ∈ items := by
  have hadd : extensibleSession.addDocument ⟨0⟩ = .ok extendedSession := rfl
  refine ⟨built_extensibleSession, hadd, ?_⟩
  have hrun : ∃ after r, extendedSession.resolveReferences true = (after, .ok r) := by
    have hout := (resolveReferences_walked extendedSession true).2
    rw [walkAll_eq_follow, itinerary_extendedSession] at hout
    exact ⟨_, _, Prod.ext rfl hout⟩
  obtain ⟨after, r, hrun⟩ := hrun
  obtain ⟨x, hx, hcall⟩ := exists_answer_extendedSession (n := ⟨3⟩) (by simp)
  obtain ⟨y, hy, hcall'⟩ := exists_answer_extendedSession (n := ⟨4⟩) (by simp)
  have htype : ∀ text, ':' ∉ text.toList → text ∈ Text.words "Known Type" →
      x.call.Refers extendedSession "type" [.complexTypes, .simpleTypes] text "urn:a" text := by
    intro text hcolon htext
    rw [hcall]
    exact ⟨_, _, rfl, rfl, .type _, mem_wordsOf_iff.mp htext, .own hcolon rfl⟩
  have href : y.call.Refers extendedSession "ref" [.elements] "Item" "urn:a" "Item" := by
    have htext : "Item" ∈ Text.words "Item" := by decide
    rw [hcall']
    exact ⟨_, _, rfl, rfl, .elementRef, mem_wordsOf_iff.mp htext, .own (by decide) rfl⟩
  have hfile : (Registry.ofRoot ⟨0⟩ { kind := .schema, space := "urn:a"
                                      children := [⟨1⟩, ⟨2⟩, ⟨3⟩, ⟨4⟩] }
      ).fileChildren extensibleSession.builtins extensibleSession.arena ⟨0⟩ =
      (extendedRegistry, .ok [(⟨1⟩, .builtin), (⟨2⟩, .declared .complexTypes "Type" none),
        (⟨3⟩, .declared .elements "Item" none), (⟨4⟩, .ignored)]) := by
    decide +kernel
  have hknown := (references_to_filed built_extensibleSession rfl rfl hfile hadd .start
    (b := .complexTypes) (c := ⟨1⟩) (by decide) rfl rfl rfl).2 .builtin (by decide)
  have hdeclared := (references_to_filed built_extensibleSession rfl rfl hfile hadd .start
    (b := .complexTypes) (c := ⟨2⟩) (by decide) rfl rfl rfl).2 (.declared .complexTypes "Type" none)
    (by decide)
  have hitem := (references_to_filed built_extensibleSession rfl rfl hfile hadd .start
    (b := .elements) (c := ⟨3⟩) (by decide) rfl rfl rfl).2 (.declared .elements "Item" none)
    (by decide)
  obtain ⟨-, types, found, htypes, hmem, hfits⟩ := (hknown.2.2 true x "type" _ "Known" hx
    (htype _ (by decide) (by decide)) (by decide)).2 after r hrun
  obtain ⟨-, types', found', htypes', hmem', hfits'⟩ := (hdeclared.2.2 true x "type" _ "Type" hx
    (htype _ (by decide) (by decide)) (by decide)).2 after r hrun
  obtain ⟨-, items, found'', hitems, hmem'', hfits''⟩ := (hitem.2.2 true y "ref" _ "Item" hy
    href (by decide)).2 after r hrun
  rw [hcall] at htypes htypes'
  rw [hcall'] at hitems
  obtain rfl : types = types' := Option.some.inj (htypes.symm.trans htypes')
  obtain ⟨b, -, target, hto⟩ := hfits'.inserted Filing.noConfusion rfl
  obtain ⟨b', hb', target', hto'⟩ := hfits''.inserted Filing.noConfusion rfl
  obtain rfl := List.mem_singleton.mp hb'
  exact ⟨after, r, types, items, hrun, htypes, hfits.suppressed rfl ▸ hmem,
    ⟨b, target, hto ▸ hmem'⟩, hitems, target', hto' ▸ hmem''⟩

end Session

end SchemaCatalog
