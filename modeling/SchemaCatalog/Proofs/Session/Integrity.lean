import SchemaCatalog.Graph.Basic
import SchemaCatalog.Proofs.Reference.Suppression
import SchemaCatalog.Proofs.Session.Soundness

/-!
# SchemaCatalog.Proofs.Session.Integrity

Sessions whose ids all name declarations.  An arena is *enlarged* by the
operations that check what they are given: declarations are added below
existing ones, edges are drawn between existing ones, and texts are loaded,
well or not (`Arena.Enlarged`).  If a session is built by these, by adding
documents and by walks, then at every moment all children, all roots and all
that registries have filed are declarations of the arena (`Intact.run`).

An unknown node is what every operation complains of that meets an id without
a declaration.  In an intact session there is none, so nothing is left that
could go wrong but the visitor of a walk (`no_unknown_node`).
-/

namespace SchemaCatalog

namespace Arena

/-! ## enlarging an arena -/

/-- `b` comes about from `a` by an operation that checks the ids it is given. -/
inductive Enlarged (a : Arena) : Arena → Prop
  /-- A declaration without children, or with children that exist. -/
  | alloc (d : Declaration) (hchildren : ∀ c ∈ d.children, a.Valid c) : Enlarged a (a.alloc d).2
  | allocChild {parent id : NodeId} {d : Declaration} {b : Arena}
    (hchildren : ∀ c ∈ d.children, a.Valid c) (h : a.allocChild parent d = .ok (id, b)) :
    Enlarged a b
  | addChild {parent child : NodeId} {b : Arena} (h : a.addChild parent child = .ok b) :
    Enlarged a b
  /-- A text is loaded, or as much of it as goes before something is wrong. -/
  | load (text : String) : Enlarged a (a.load text).1

/-- A new declaration leaves the arena closed if its children are there. -/
theorem closed_alloc {a : Arena} (h : a.Closed) {d : Declaration}
    (hchildren : ∀ c ∈ d.children, a.Valid c) : (a.alloc d).2.Closed := by
  have hgrown := extends_alloc a d
  rw [closed_iff] at h ⊢
  rintro p c ⟨e, he, hc⟩
  rw [get?_alloc] at he
  split at he
  · obtain rfl := Option.some.inj he
    exact hgrown.valid (hchildren c hc)
  · exact hgrown.valid (h p c ⟨e, he, hc⟩)

/-- A new edge to a declaration leaves the arena closed. -/
theorem closed_link {a : Arena} (h : a.Closed) (parent : NodeId) {child : NodeId}
    (hchild : a.Valid child) : (a.link parent child).Closed := by
  have hkeeps := keeps_link a parent child
  rw [closed_iff] at h ⊢
  rintro p c ⟨e, he, hc⟩
  rw [link, get?_modify] at he
  split at he
  · obtain ⟨d, hd, rfl⟩ := Option.map_eq_some_iff.mp he
    rcases List.mem_append.mp hc with hc | hc
    · exact hkeeps.valid (h p c ⟨d, hd, hc⟩)
    · rw [List.mem_singleton.mp hc]
      exact hkeeps.valid hchild
  · exact hkeeps.valid (h p c ⟨e, he, hc⟩)

namespace Enlarged

variable {a b : Arena}

/-- Nothing is lost. -/
theorem keeps (h : Enlarged a b) : b.Keeps a := by
  cases h with
  | alloc d => exact (extends_alloc a d).keeps
  | allocChild _ h => exact keeps_allocChild h
  | addChild h => exact keeps_addChild h
  | load text => exact (annexed_load a text).grown.keeps

/-- **Edges go on to lead somewhere.** -/
theorem closed (h : Enlarged a b) (hclosed : a.Closed) : b.Closed := by
  cases h with
  | alloc d hchildren => exact closed_alloc hclosed hchildren
  | @allocChild parent id d _ hchildren h =>
      rw [Arena.allocChild] at h
      split at h
      · contradiction
      · simp only [Except.ok.injEq, Prod.mk.injEq] at h
        obtain ⟨-, rfl⟩ := h
        refine closed_link (closed_alloc hclosed hchildren) parent ?_
        rw [Valid, size_alloc]
        exact Nat.lt_succ_self a.size
  | @addChild parent child _ h =>
      rw [Arena.addChild] at h
      split at h
      · contradiction
      · contradiction
      · next d e hchild hparent =>
        rw [← Except.ok.inj h]
        exact closed_link hclosed parent (valid_iff.mpr ⟨d, hchild⟩)
  | load text => exact (annexed_load a text).closed hclosed

end Enlarged

end Arena

/-! ## refusals -/

/-- In a walk of `s` the visitor has refused a declaration with `e`, and left its
state as `final`. -/
def Visitor.Refuses {σ : Type} (visit : Visitor σ) (s : Session) (final : σ) (e : Error) : Prop :=
  ∃ (c : Walk.Call) (ids : List NodeId) (before : σ), s.arena.Valid c.node ∧
    s.arena.Valid c.root ∧
    visit ⟨s.arena.markAll ids, c.root, c.registry, s.registries⟩ c.node before = (final, some e)

namespace Walk

/-- A walk on a known route fails because one of its calls is refused. -/
theorem exists_refused_of_follow {σ : Type} {visit : Visitor σ}
    {registries : Table String Registry} {w w' : Walk σ} {es : List Event} {e : Error}
    (hknown : ∀ id, Event.unknown id ∉ es) (h : follow visit registries w es = (w', some e)) :
    ∃ c ∈ calls es, ∃ ids before,
      visit ⟨w.arena.markAll ids, c.root, c.registry, registries⟩ c.node before =
        (w'.state, some e) := by
  induction es generalizing w with
  | nil => simp [follow] at h
  | cons event es ih =>
      have hknown' : ∀ id, Event.unknown id ∉ es :=
        fun id h => hknown id (List.mem_cons_of_mem _ h)
      cases event with
      | skip => exact ih (w := { w with tally := w.tally.skip }) hknown' h
      | unknown id => exact absurd List.mem_cons_self (hknown id)
      | call c =>
          cases hv : visit ⟨w.arena, c.root, c.registry, registries⟩ c.node w.state with
          | mk state fault =>
              cases fault with
              | some e' =>
                  rw [follow_call_refused hv, Prod.mk.injEq, Option.some.injEq] at h
                  obtain ⟨rfl, rfl⟩ := h
                  exact ⟨c, List.mem_cons_self, [], w.state, hv⟩
              | none =>
                  rw [follow_call_accepted hv] at h
                  obtain ⟨c', hc', ids, before, hrefused⟩ := ih hknown' h
                  exact ⟨c', List.mem_cons_of_mem _ hc', c.node :: ids, before, hrefused⟩

/-- A walk that meets declarations only fails because its visitor refuses one. -/
theorem refuses_of_follow {σ : Type} {visit : Visitor σ} {s : Session} {state : σ} {w : Walk σ}
    {tasks : List Task} {e : Error} (hclosed : s.arena.Closed)
    (htasks : ∀ t ∈ tasks, s.arena.Valid t.target)
    (hroots : ∀ c ∈ calls (route s.arena tasks), s.arena.Valid c.root)
    (h : follow visit s.registries { arena := s.arena, state } (route s.arena tasks) =
      (w, some e)) : visit.Refuses s w.state e := by
  obtain ⟨c, hc, ids, before, hrefused⟩ :=
    exists_refused_of_follow (unknown_not_mem_route hclosed htasks) h
  have hnode := valid_of_mem_called_route (mem_called.mpr ⟨c, hc, rfl⟩)
  exact ⟨c, ids, before, hnode, hroots c hc, hrefused⟩

end Walk

/-- A resolver refuses a declaration because of one of its names. -/
theorem Resolver.error_of_visit {scope : Scope} {id : NodeId} {r r' : Resolver} {e : Error}
    (hid : scope.arena.Valid id) (hroot : scope.arena.Valid scope.root)
    (h : visit scope id r = (r', some e)) :
    (∃ attr text, e = .unresolvedReference id attr text) ∨ ∃ pfx, e = .unknownPrefix id pfx := by
  obtain ⟨d, hd⟩ := Arena.valid_iff.mp hid
  rw [visit_eq_takeAll hd] at h
  obtain ⟨t, ht, herror⟩ := exists_error_of_takeAll h
  obtain ⟨search, -, hat⟩ := List.mem_flatMap.mp ht
  obtain ⟨text, -, rfl⟩ := List.mem_map.mp hat
  exact (error_of_resolveName hroot herror).imp_left fun heq => ⟨_, _, heq⟩

/-! ## the declaration graph -/

namespace Graph

theorem mem_of_mem_discover {known ids : List NodeId} {id : NodeId}
    (h : id ∈ discover known ids) : id ∈ ids := by
  induction ids generalizing known with
  | nil => simp [discover] at h
  | cons x ids ih =>
      rw [discover] at h
      split at h
      · exact List.mem_cons_of_mem x (ih h)
      · rcases List.mem_cons.mp h with rfl | h
        · exact List.mem_cons_self
        · exact List.mem_cons_of_mem x (ih h)

/-- A search from declarations of a closed arena meets declarations only. -/
theorem exists_explore {a : Arena} (hclosed : a.Closed) (g : Graph) (queue : List NodeId)
    (hqueue : ∀ id ∈ queue, a.Valid id) : ∃ g', explore a g queue = .ok g' := by
  fun_induction explore a g queue with
  | case1 g => exact ⟨g, rfl⟩
  | case2 g id queue hget =>
      exact absurd (hqueue id List.mem_cons_self) (Arena.get?_eq_none_iff.mp hget)
  | case3 g id queue d hget fresh ih =>
      refine ih fun c hc => ?_
      rcases List.mem_append.mp hc with hc | hc
      · exact hqueue c (List.mem_cons_of_mem _ hc)
      · exact hclosed d (Arena.mem_nodes hget) c (mem_of_mem_discover hc)

end Graph

/-! ## sessions -/

namespace Session

open Walk

/-- All ids that the session holds name declarations: the children in the arena,
and the roots and entries of registries, which are sound. -/
structure Intact (s : Session) : Prop where
  closed : s.arena.Closed
  sound : s.Sound

/-- A new session is intact. -/
theorem intact_new (builtins : Builtins) (dedup : Bool) : Intact { builtins, dedup } where
  closed := by
    intro d hd
    simp [EmptyCollection.emptyCollection, Arena.empty] at hd
  sound := by
    refine .of_registries fun space r hr => ?_
    simp [EmptyCollection.emptyCollection] at hr

section

variable {s t : Session} {xs : List Answer} {fault : Option Error}

/-- Editing the arena leaves a session intact. -/
theorem Intact.edit (h : s.Intact) {b : Arena} (hb : s.arena.Enlarged b) :
    Intact { s with arena := b } where
  closed := hb.closed h.closed
  sound := h.sound.keep rfl rfl hb.keeps

/-- Adding a document leaves a session intact. -/
theorem Intact.add (h : s.Intact) {root : NodeId} {d : Declaration}
    (hadd : s.Addition root d t) : t.Intact where
  closed := by
    rw [hadd.arena]
    exact h.closed
  sound := h.sound.add hadd

/-- A walk leaves a session sound. -/
theorem Sound.walk (h : s.Sound) (hwalk : s.Walks xs t fault) : t.Sound := by
  obtain ⟨⟨tasks, haccount⟩, hregistries, hbuiltins⟩ := hwalk.account
  refine h.keep hregistries hbuiltins ?_
  rw [haccount.arena]
  exact Arena.keeps_markAll _ _

/-- A walk leaves a session intact. -/
theorem Intact.walk (h : s.Intact) (hwalk : s.Walks xs t fault) : t.Intact where
  closed := by
    obtain ⟨⟨tasks, haccount⟩, -⟩ := hwalk.account
    rw [haccount.arena]
    exact Arena.closed_markAll h.closed _
  sound := h.sound.walk hwalk

/-- One operation leaves the session intact. -/
theorem Intact.step (h : s.Intact) (hstep : Step Arena.Enlarged s xs t) : t.Intact := by
  cases hstep with
  | edit b hb => exact h.edit hb
  | add hadd =>
      obtain ⟨d, hadd⟩ := addition_of_addDocument hadd
      exact h.add hadd
  | refuse => exact h
  | walk hwalk => exact h.walk hwalk

/-- **A session stays intact** all through a run. -/
theorem Intact.run (h : s.Intact) (hrun : Run Arena.Enlarged s xs t) : t.Intact := by
  induction hrun with
  | start => exact h
  | step _ hstep ih => exact ih.step hstep

/-! ## what intact sessions can do -/

/-- Each declaration of an intact session can be added as a document. -/
theorem Intact.exists_addDocument (h : s.Intact) {root : NodeId} (hroot : s.arena.Valid root) :
    ∃ t, s.addDocument root = .ok t := by
  obtain ⟨d, hd⟩ := Arena.valid_iff.mp hroot
  exact Session.exists_addDocument hd (h.closed d (Arena.mem_nodes hd))

/-- In an intact session only the visitor can stop a walk. -/
theorem Intact.refuses (h : s.Intact) {registries : List Registry}
    (hmem : ∀ r ∈ registries, r ∈ s.registries.values) {σ : Type} {visit : Visitor σ} {state : σ}
    {w : Walk σ} {e : Error}
    (hfollow : follow visit s.registries { arena := s.arena, state }
      (route s.arena (enterAll registries)) = (w, some e)) : visit.Refuses s w.state e :=
  refuses_of_follow h.closed (h.sound.rooted.valid_target hmem)
    (fun _ hc => valid_root_of_mem_calls hc) hfollow

/-- A walk fails with an error of its visitor. -/
theorem Intact.refuses_of_walkAll (h : s.Intact) {σ : Type} {visit : Visitor σ} {state final : σ}
    {e : Error} (hwalk : s.walkAll visit state = (t, final, .error e)) :
    visit.Refuses s final e := by
  rw [walkAll_eq_follow] at hwalk
  cases hfollow : follow visit s.registries { arena := s.arena, state } s.itinerary with
  | mk w fault =>
      rw [hfollow, outcome, Prod.mk.injEq, Prod.mk.injEq] at hwalk
      obtain ⟨-, rfl, hout⟩ := hwalk
      cases fault with
      | none => contradiction
      | some e' =>
          obtain rfl : e' = e := Except.error.inj hout
          exact h.refuses (fun _ hr => hr) hfollow

/-- So does a walk of one namespace. -/
theorem Intact.refuses_of_walkSpace (h : s.Intact) {space : String} {σ : Type} {visit : Visitor σ}
    {state final : σ} {e : Error} (hwalk : s.walkSpace space visit state = (t, final, .error e)) :
    visit.Refuses s final e := by
  cases hget : s.registries.get? space with
  | none => simp [walkSpace, hget] at hwalk
  | some r =>
      have hr : ∀ r' ∈ [r], r' ∈ s.registries.values := by
        intro r' hr'
        rw [List.mem_singleton.mp hr']
        exact mem_registries_values.mpr ⟨space, hget⟩
      rw [walkSpace_eq_follow hget] at hwalk
      cases hfollow : follow visit s.registries { arena := s.arena, state }
          (route s.arena (enterAll [r])) with
      | mk w fault =>
          simp only [hfollow, outcome, Prod.mk.injEq] at hwalk
          obtain ⟨-, rfl, hout⟩ := hwalk
          cases fault with
          | none => contradiction
          | some e' =>
              obtain rfl : e' = e := Except.error.inj hout
              exact h.refuses hr hfollow

/-- Lenient resolution succeeds. -/
theorem Intact.exists_resolveReferences (h : s.Intact) :
    ∃ t r, s.resolveReferences false = (t, .ok r) := by
  obtain ⟨r, htaken, -⟩ := Resolver.takeAll_lenient
    (r := { builtins := s.builtins, strict := false }) rfl
    ((calls s.itinerary).flatMap (·.attempts s))
  exact ⟨_, r, resolveReferences_taken h.sound.rooted h.closed htaken⟩

/-- Resolution fails because of a name, of a declaration that exists. -/
theorem Intact.error_of_resolveReferences (h : s.Intact) {strict : Bool} {e : Error}
    (hresolve : s.resolveReferences strict = (t, .error e)) :
    ∃ id, s.arena.Valid id ∧
      ((∃ attr text, e = .unresolvedReference id attr text) ∨ ∃ pfx, e = .unknownPrefix id pfx) := by
  have hout := (resolveReferences_walked s strict).2
  rw [hresolve] at hout
  cases hwalk : s.walkAll Resolver.visit { builtins := s.builtins, strict } with
  | mk s' p =>
      obtain ⟨final, out⟩ := p
      rw [hwalk] at hout
      cases out with
      | ok tally => contradiction
      | error e' =>
          obtain rfl : e = e' := Except.error.inj hout
          obtain ⟨c, ids, before, hnode, hroot, hrefused⟩ := h.refuses_of_walkAll hwalk
          exact ⟨c.node, hnode, Resolver.error_of_visit ((Arena.valid_markAll _ _ _).mpr hnode)
            ((Arena.valid_markAll _ _ _).mpr hroot) hrefused⟩

/-- The graph of an intact session can be built. -/
theorem Intact.exists_build (h : s.Intact) (resolver : Option Resolver) :
    ∃ g, Graph.build s resolver = .ok g := by
  have hroots : ∀ id ∈ s.registries.values.flatMap (·.roots), s.arena.Valid id := by
    intro id hid
    obtain ⟨r, hr, hroot⟩ := List.mem_flatMap.mp hid
    exact h.sound.rooted.valid_of_mem_values hr hroot
  obtain ⟨g, hg⟩ := Graph.exists_explore h.closed
    { nodes := Graph.addNodes [] (s.registries.values.flatMap (·.roots)) } _ hroots
  rw [Graph.build]
  simp only [hg]
  exact ⟨_, rfl⟩

end

/-- **No unknown nodes.**  Let a new session go through any operations that check
the ids they are given, well or not.  Then all children in the arena, all
registry roots and all entries of buckets name declarations.  So every
declaration can be added as a document; walks fail with errors of their
visitors only; lenient resolution succeeds; strict resolution fails only
because of a name that stays open or a prefix that is not bound; and the
declaration graph can be built. -/
theorem no_unknown_node {builtins : Builtins} {dedup : Bool} {xs : List Answer} {s : Session}
    (h : Run Arena.Enlarged { builtins, dedup } xs s) :
    (∀ p c, s.arena.Edge p c → s.arena.Valid c) ∧
    (∀ space r, s.registries.get? space = some r →
      (∀ root ∈ r.roots, s.arena.Valid root) ∧
      ∀ b name id, r.lookup b name = some id → s.arena.Valid id) ∧
    (∀ root, s.arena.Valid root → ∃ t, s.addDocument root = .ok t) ∧
    (∀ (σ : Type) (visit : Visitor σ) (state final : σ) (t : Session) (e : Error),
      s.walkAll visit state = (t, final, .error e) → visit.Refuses s final e) ∧
    (∀ (space : String) (σ : Type) (visit : Visitor σ) (state final : σ) (t : Session) (e : Error),
      s.walkSpace space visit state = (t, final, .error e) → visit.Refuses s final e) ∧
    (∃ t r, s.resolveReferences false = (t, .ok r)) ∧
    (∀ t e, s.resolveReferences true = (t, .error e) →
      (∃ id attr name, e = .unresolvedReference id attr name) ∨ ∃ id pfx, e = .unknownPrefix id pfx) ∧
    ∀ resolver, ∃ g, Graph.build s resolver = .ok g := by
  have hintact := (intact_new builtins dedup).run h
  refine ⟨Arena.closed_iff.mp hintact.closed, ?_, fun root => hintact.exists_addDocument,
    fun σ visit state final t e => hintact.refuses_of_walkAll,
    fun space σ visit state final t e => hintact.refuses_of_walkSpace,
    hintact.exists_resolveReferences, ?_, hintact.exists_build⟩
  · intro space r hr
    refine ⟨hintact.sound.rooted.valid space r hr, ?_⟩
    intro b name id hid
    obtain ⟨d, hd, -⟩ := (hintact.sound.registries space r hr).filed b name id hid
    exact Arena.valid_iff.mpr ⟨d, hd⟩
  · intro t e hresolve
    obtain ⟨id, -, hname | hprefix⟩ := hintact.error_of_resolveReferences hresolve
    · exact .inl ⟨id, hname⟩
    · exact .inr ⟨id, hprefix⟩

/-! A text with an anchor that nothing bears leaves two declarations behind.
They get a child below them, which is made its own child, and become a document
whose reference leads nowhere. -/

def danglingText : String :=
  "\x7b\"kind\":\"schema\",\"children\":[\x7b\"kind\":\"group\"\x7d,\x7b\"link\":\"x\"\x7d]\x7d"

/-- What is left of it, with the child. -/
def salvagedArena : Arena where
  nodes := #[
    { kind := .schema, space := "", children := [⟨2⟩] },
    { kind := .group, space := "" },
    { kind := .element, space := "", attributes := .ofList [("type", "Missing")],
      children := [⟨2⟩] }]

def salvagedSession : Session :=
  ((({ arena := salvagedArena } : Session).addDocument ⟨0⟩).toOption).getD {}

theorem run_salvagedSession : Run Arena.Enlarged { builtins := .xsd, dedup := true } []
    salvagedSession := by
  have hload : (∅ : Arena).load danglingText =
      (⟨#[{ kind := .schema, space := "" }, { kind := .group, space := "" }]⟩,
        .error (.invalidFragment (.unknownAnchor "x"))) := by
    decide +kernel
  have hbelow : ∃ a, (Arena.load ∅ danglingText).1.allocChild ⟨0⟩
        { kind := .element, space := "", attributes := .ofList [("type", "Missing")] } =
          .ok (⟨2⟩, a) ∧ a.addChild ⟨2⟩ ⟨2⟩ = .ok salvagedArena := by
    rw [hload]
    exact ⟨_, rfl, rfl⟩
  have hadd : ({ arena := salvagedArena } : Session).addDocument ⟨0⟩ = .ok salvagedSession := rfl
  obtain ⟨a, halloc, hself⟩ := hbelow
  have hloaded : Run Arena.Enlarged { builtins := .xsd, dedup := true } []
      { arena := (Arena.load ∅ danglingText).1 } :=
    Run.start.step (.edit _ (Arena.Enlarged.load danglingText))
  exact ((hloaded.step (.edit _ (.allocChild (by simp) halloc))).step
    (.edit _ (.addChild hself))).step (.add hadd)

/-- Its reference is refused, and nothing is unknown. -/
theorem no_unknown_node_salvaged :
    Run Arena.Enlarged { builtins := .xsd, dedup := true } [] salvagedSession ∧
      (∃ t r, salvagedSession.resolveReferences false = (t, .ok r)) ∧
      (∃ t, salvagedSession.addDocument ⟨1⟩ = .ok t) ∧
      ∃ g, Graph.build salvagedSession none = .ok g := by
  have hrun := run_salvagedSession
  obtain ⟨-, -, hadd, -, -, hlenient, -, hbuild⟩ := no_unknown_node hrun
  exact ⟨hrun, hlenient, hadd ⟨1⟩ (by decide +kernel), hbuild none⟩

end Session

end SchemaCatalog
