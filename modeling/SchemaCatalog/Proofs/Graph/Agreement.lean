import SchemaCatalog.Proofs.Graph.Search
import SchemaCatalog.Proofs.Reference.Suppression

/-!
# SchemaCatalog.Proofs.Graph.Agreement

The declaration graph of a session against its walks.  The search starts from
the roots of all registries, of which none is listed twice if the arena has
only ever been added to (`Sound.nodup_roots`).  So the graph has the
declarations that can be reached from a root, and the edges of the arena
between them; a walk that meets no flags flags the same declarations, roots
apart (`Session.reaches_iff_isProcessed`).

Reference edges add nothing to the nodes.  A resolution stands on a declaration
that the walk has called, and leads to one that is filed, which lies below a
root of the registry that files it (`Sound.reaches_of_resolution`).
-/

namespace SchemaCatalog

open Walk
open Relation (ReflTransGen TransGen)

/-! ## reference edges -/

namespace Graph

/-- An edge for each resolution that leads to a declaration. -/
def referenceEdges (r : Resolver) : List Edge :=
  r.resolutions.filterMap fun p => p.2.node?.map fun target => ⟨p.1.node, target, .references⟩

/-- Between listed nodes a reference only adds an edge. -/
theorem addReference_of_listed {g : Graph} {source target : NodeId} (hsource : source ∈ g.nodes)
    (htarget : target ∈ g.nodes) :
    g.addReference source target =
      { nodes := g.nodes, edges := g.edges ++ [⟨source, target, .references⟩] } := by
  rw [addReference, addNode, addNode, if_pos hsource, if_pos htarget]

/-- References between nodes that are listed add edges only. -/
theorem addReferences_of_listed {g : Graph} {r : Resolver}
    (h : ∀ p ∈ r.resolutions, ∀ target, p.2.node? = some target →
      p.1.node ∈ g.nodes ∧ target ∈ g.nodes) :
    g.addReferences r = { nodes := g.nodes, edges := g.edges ++ referenceEdges r } := by
  rw [addReferences_eq, referenceEdges]
  generalize r.resolutions = resolutions at h
  induction resolutions generalizing g with
  | nil => rw [List.filterMap_nil, List.append_nil]; rfl
  | cons p ps ih =>
      rw [List.forall_mem_cons] at h
      obtain ⟨hfirst, hrest⟩ := h
      rw [List.foldl_cons]
      cases hnode : p.2.node? with
      | none =>
          rw [refer_none hnode, ih hrest, List.filterMap_cons_none (by rw [hnode, Option.map_none])]
      | some target =>
          obtain ⟨hsource, htarget⟩ := hfirst target hnode
          have hrefs := @ih ⟨g.nodes, g.edges ++ [⟨p.1.node, target, .references⟩]⟩ hrest
          rw [refer_some hnode, addReference_of_listed hsource htarget, hrefs,
            List.filterMap_cons_some (by rw [hnode, Option.map_some]), List.append_assoc,
            List.singleton_append]

/-! ## flags -/

/-- The search stops at an unknown node. -/
theorem explore_none {a : Arena} {id : NodeId} (h : a.get? id = none) (g : Graph)
    (queue : List NodeId) : explore a g (id :: queue) = .error (.unknownNode id) := by
  rw [explore]
  split
  · rfl
  · next d hd =>
    rw [h] at hd
    contradiction

/-- The search takes a node by listing its children and an edge to each. -/
theorem explore_some {a : Arena} {id : NodeId} {d : Declaration} (h : a.get? id = some d)
    (g : Graph) (queue : List NodeId) :
    explore a g (id :: queue) =
      explore a
        { nodes := g.nodes ++ discover g.nodes d.children
          edges := g.edges ++ d.children.map fun c => ⟨id, c, .contains⟩ }
        (queue ++ discover g.nodes d.children) := by
  rw [explore]
  split
  · next hnone =>
    rw [h] at hnone
    contradiction
  · next e he =>
    obtain rfl : d = e := Option.some.inj (h.symm.trans he)
    rfl

/-- A search does not look at flags. -/
theorem explore_markAll (a : Arena) (ids : List NodeId) (g : Graph) (queue : List NodeId) :
    explore (a.markAll ids) g queue = explore a g queue := by
  fun_induction explore a g queue with
  | case1 g => rw [explore]
  | case2 g id queue hget =>
      refine explore_none ?_ g queue
      rw [Arena.get?_markAll, hget, Option.map_none]
  | case3 g id queue d hget fresh ih =>
      have hmarked : (a.markAll ids).get? id =
          some { d with processed := d.processed || decide (id ∈ ids) } := by
        rw [Arena.get?_markAll, hget, Option.map_some]
      rw [explore_some hmarked]
      exact ih

end Graph

/-! ## where resolutions come from -/

/-- An attempt has found what its outcome says. -/
theorem Attempt.found?_eq_some {t : Attempt} {found : Resolution} :
    t.found? = some found ↔ t.outcome = .ok found := by
  refine ⟨fun h => ?_, found?_ok⟩
  cases hout : t.outcome with
  | ok other =>
      rw [found?_ok hout] at h
      rw [Option.some.inj h]
  | error e =>
      rw [found?_error hout] at h
      contradiction

namespace Resolver

/-- What is kept has been found by an attempt. -/
theorem exists_found_of_mem_resolutions {builtins : Builtins} {strict : Bool} {r : Resolver}
    {ts : List Attempt}
    (h : ({ builtins, strict } : Resolver).takeAll ts = (r, none)) {p : Site × Resolution}
    (hp : p ∈ r.resolutions) : ∃ t ∈ ts, t.site = p.1 ∧ t.outcome = .ok p.2 := by
  obtain ⟨entry, hentry, hp⟩ := List.mem_flatMap.mp hp
  obtain ⟨found, hfound, rfl⟩ := List.mem_map.mp hp
  have hget := r.resolved.mem_entries_iff.mp hentry
  have hempty : ({ builtins, strict } : Resolver).resolved.get? entry.1 = kept [] := rfl
  rw [resolved_takeAll h hempty, List.nil_append] at hget
  have hall : entry.2 = (ts.filter (·.site = entry.1)).filterMap Attempt.found? := by
    rw [← getD_kept ((ts.filter (·.site = entry.1)).filterMap Attempt.found?), hget,
      Option.getD_some]
  rw [hall] at hfound
  obtain ⟨t, ht, hout⟩ := List.mem_filterMap.mp hfound
  obtain ⟨ht, hsite⟩ := List.mem_filter.mp ht
  exact ⟨t, ht, of_decide_eq_true hsite, Attempt.found?_eq_some.mp hout⟩

/-- A name that leads to a declaration is filed in a registry. -/
theorem exists_lookup_of_resolveName {builtins : Builtins} {scope : Scope} {id : NodeId}
    {node : Declaration} {attr text : String} {buckets : List Bucket}
    (hroot : scope.arena.Valid scope.root) {found : Resolution}
    (h : resolveName builtins scope id node attr buckets text = .ok found) {target : NodeId}
    (htarget : found.node? = some target) :
    ∃ space registry b name, scope.registries.get? space = some registry ∧
      registry.lookup b name = some target := by
  obtain ⟨root, hroot⟩ := Arena.valid_iff.mp hroot
  cases (resolveName_iff hroot).mp h with
  | builtin => contradiction
  | declared hnamed hbuiltin hregistry hbuckets hbefore hfound =>
      obtain rfl := Option.some.inj htarget
      exact ⟨_, _, _, _, hregistry, hfound⟩

end Resolver

/-- So an attempt of a call leads to a declaration that is filed, if to any. -/
theorem Walk.Call.exists_lookup_of_mem_attempts {s : Session} {c : Walk.Call}
    (hroot : s.arena.Valid c.root) {t : Attempt} (ht : t ∈ c.attempts s) {found : Resolution}
    (hfound : t.outcome = .ok found) {target : NodeId} (htarget : found.node? = some target) :
    ∃ space registry b name, s.registries.get? space = some registry ∧
      registry.lookup b name = some target := by
  rw [attempts] at ht
  split at ht
  · contradiction
  · obtain ⟨search, -, hat⟩ := List.mem_flatMap.mp ht
    obtain ⟨text, -, rfl⟩ := List.mem_map.mp hat
    exact Resolver.exists_lookup_of_resolveName hroot hfound htarget

namespace Session

/-! ## what can be reached -/

/-- A root, or below one. -/
def Reaches (s : Session) (id : NodeId) : Prop :=
  ∃ root, s.IsRoot root ∧ ReflTransGen s.arena.Edge root id

section

variable {s : Session}

theorem IsRoot.reaches {id : NodeId} (h : s.IsRoot id) : s.Reaches id := ⟨id, h, .refl⟩

theorem Below.reaches {id : NodeId} (h : s.Below id) : s.Reaches id := by
  obtain ⟨root, hroot, hpath⟩ := h
  exact ⟨root, hroot, hpath.to_reflTransGen⟩

/-- A session reaches its roots and what is below them. -/
theorem reaches_iff {id : NodeId} : s.Reaches id ↔ s.IsRoot id ∨ s.Below id := by
  constructor
  · rintro ⟨root, hroot, hpath⟩
    rcases Relation.reflTransGen_iff_eq_or_transGen.mp hpath with rfl | hpath
    · exact .inl hroot
    · exact .inr ⟨root, hroot, hpath⟩
  · rintro (hroot | hbelow)
    · exact hroot.reaches
    · exact hbelow.reaches

/-- In a closed arena all that a rooted session reaches is there. -/
theorem Reaches.valid {id : NodeId} (h : s.Reaches id) (hrooted : s.Rooted)
    (hclosed : s.arena.Closed) : s.arena.Valid id := by
  obtain ⟨root, ⟨r, hr, hroot⟩, hpath⟩ := h
  rcases Relation.ReflTransGen.cases_tail hpath with rfl | ⟨p, -, hedge⟩
  · exact hrooted.valid_of_mem_values hr hroot
  · exact hedge.valid_right hclosed

/-- A walk that ends well has flagged its whole route. -/
theorem marked_of_walkAll {σ : Type} {visit : Visitor σ} {state final : σ} {after : Session}
    {tally : Tally} (h : s.walkAll visit state = (after, final, .ok tally)) :
    after = s.marked (called s.itinerary) := by
  rw [walkAll_eq_follow] at h
  cases hfollow : follow visit s.registries { arena := s.arena, state } s.itinerary with
  | mk w fault =>
      rw [hfollow] at h
      cases fault with
      | some e => simp [outcome] at h
      | none =>
          have harena := arena_follow hfollow
          rw [marked, ← harena]
          exact (congrArg Prod.fst h).symm

/-- **What a first walk flags**, if it ends well: with the roots, what can be
reached from one. -/
theorem reaches_iff_isProcessed (hclosed : s.arena.Closed) (hfresh : s.arena.Unprocessed)
    {σ : Type} {visit : Visitor σ} {state final : σ} {after : Session} {tally : Tally}
    (h : s.walkAll visit state = (after, final, .ok tally)) {id : NodeId} :
    s.Reaches id ↔ s.IsRoot id ∨ after.arena.isProcessed id = true := by
  rw [marked_of_walkAll h, marked, Arena.isProcessed_markAll,
    Arena.isProcessed_of_unprocessed hfresh, reaches_iff]
  have hvalid : ∀ id ∈ called s.itinerary, s.arena.Valid id :=
    fun _ hid => valid_of_mem_called_route hid
  by_cases hroot : s.IsRoot id
  · simp [hroot]
  · have hcalled := mem_called_iff_below hclosed hfresh (fun _ => Iff.rfl) hroot
    simp only [hroot, false_or, Bool.false_eq_true, ← hcalled]
    exact ⟨fun hid => ⟨hvalid id hid, hid⟩, fun hid => hid.2⟩

/-- No root is listed twice, be it in one registry or in two. -/
theorem Sound.nodup_roots (h : s.Sound) : (s.registries.values.flatMap (·.roots)).Nodup :=
  nodup_flatMap_registries (fun space r hr => (h.registries space r hr).nodup) h.apart

/-- **A resolution stays inside.**  It stands on a node that can be reached, and
so can the declaration that it leads to. -/
theorem Sound.reaches_of_resolution (h : s.Sound) {strict : Bool} {after : Session} {r : Resolver}
    (hresolve : s.resolveReferences strict = (after, .ok r)) {p : Site × Resolution}
    (hp : p ∈ r.resolutions) {target : NodeId} (htarget : p.2.node? = some target) :
    s.Reaches p.1.node ∧ s.Reaches target := by
  have htaken := (resolveReferences_cases s strict).1 after r hresolve
  obtain ⟨t, ht, hsite, hout⟩ := Resolver.exists_found_of_mem_resolutions htaken hp
  obtain ⟨c, hc, ht⟩ := List.mem_flatMap.mp ht
  constructor
  · rw [← hsite, node_of_mem_call_attempts ht]
    exact (below_of_mem_called (fun _ hr => hr) (mem_called.mpr ⟨c, hc, rfl⟩)).reaches
  · obtain ⟨space, registry, b, name, hregistry, hlookup⟩ :=
      c.exists_lookup_of_mem_attempts (valid_root_of_mem_itinerary hc) ht hout htarget
    obtain ⟨d, -, -, -, -, root, hroot, hedge⟩ :=
      (h.registries space registry hregistry).filed b name target hlookup
    exact ⟨root, ⟨registry, mem_registries_values.mpr ⟨space, hregistry⟩, hroot⟩, .single hedge⟩

/-! ## arenas that are only added to -/

/-- One operation keeps a session sound. -/
theorem Sound.step (h : s.Sound) {t : Session} {xs : List Answer}
    (hstep : Step (fun a b => b.Keeps a) s xs t) : t.Sound := by
  cases hstep with
  | edit b hb => exact h.keep rfl rfl hb
  | add hadd =>
      obtain ⟨d, hadd⟩ := addition_of_addDocument hadd
      exact h.add hadd
  | refuse => exact h
  | walk hwalk => exact h.walk hwalk

/-- **A session stays sound** as long as its arena is only added to. -/
theorem Sound.run (h : s.Sound) {t : Session} {xs : List Answer}
    (hrun : Run (fun a b => b.Keeps a) s xs t) : t.Sound := by
  induction hrun with
  | start => exact h
  | step _ hstep ih => exact ih.step hstep

/-- The search from the roots of a sound session comes to its end. -/
theorem Sound.exists_search (h : s.Sound) (hclosed : s.arena.Closed) :
    ∃ g, Graph.build s none = .ok g ∧
      Graph.Search s.arena (s.registries.values.flatMap (·.roots)) g g.nodes [] := by
  have hroots : ∀ id ∈ s.registries.values.flatMap (·.roots), s.arena.Valid id := by
    intro id hid
    obtain ⟨r, hr, hroot⟩ := List.mem_flatMap.mp hid
    exact h.rooted.valid_of_mem_values hr hroot
  have hnodes : Graph.addNodes [] (s.registries.values.flatMap (·.roots)) =
      s.registries.values.flatMap (·.roots) := by
    rw [Graph.addNodes_eq, appendNew_of_nodup (by rw [List.nil_append]; exact h.nodup_roots),
      List.nil_append]
  obtain ⟨g, hg⟩ := Graph.exists_explore hclosed
    { nodes := s.registries.values.flatMap (·.roots) } _ hroots
  refine ⟨g, ?_, (Graph.search_start h.nodup_roots).run hg⟩
  rw [Graph.build]
  simp only [hnodes, hg]

/-- The nodes of the search are what can be reached. -/
theorem mem_nodes_iff_reaches {g : Graph}
    (h : Graph.Search s.arena (s.registries.values.flatMap (·.roots)) g g.nodes []) {id : NodeId} :
    id ∈ g.nodes ↔ s.Reaches id := by
  simp only [h.mem_nodes_iff, Reaches, IsRoot, List.mem_flatMap]

/-- Flags and notes make no difference to a graph. -/
theorem build_marked (s : Session) (ids : List NodeId) (notes : Diagnostics)
    (resolver : Option Resolver) :
    Graph.build { s.marked ids with diagnostics := notes } resolver = Graph.build s resolver := by
  simp only [Graph.build, marked, Graph.explore_markAll]

/-- The graph with references is the plain one with the resolutions added. -/
theorem build_some {g : Graph} (h : Graph.build s none = .ok g) (r : Resolver) :
    Graph.build s (some r) = .ok (g.addReferences r) := by
  rw [Graph.build] at h ⊢
  split at h
  · contradiction
  · next g' hg =>
    obtain rfl := Except.ok.inj h
    rfl

end

/-- **The declaration graph is exact and agrees with the walk**, in every session
with a closed arena that has only been added to.  It can be built; its nodes
are the declarations that can be reached from a root, each listed once; and
each has one edge for every time that a child is listed on it, in order, and
there are no others.  If no declaration is flagged and a walk of the session
ends well, then the nodes are the roots and what the walk has flagged.  Once
references have been resolved, the graph has the same nodes, and besides its
edges one for each resolution that leads to a declaration. -/
theorem build_exact {builtins : Builtins} {dedup : Bool} {xs : List Answer} {s : Session}
    (hrun : Run (fun a b => b.Keeps a) { builtins, dedup } xs s) (hclosed : s.arena.Closed) :
    ∃ g, Graph.build s none = .ok g ∧
      g.nodes.Nodup ∧
      (∀ id, id ∈ g.nodes ↔ s.Reaches id) ∧
      (∀ p, s.Reaches p → ∃ d, s.arena.get? p = some d ∧
        g.edges.filter (·.source = p) = d.children.map fun c => ⟨p, c, .contains⟩) ∧
      (∀ e ∈ g.edges, s.Reaches e.source) ∧
      (s.arena.Unprocessed → ∀ (σ : Type) (visit : Visitor σ) (state final : σ) (after : Session)
          (tally : Tally), s.walkAll visit state = (after, final, .ok tally) →
        Graph.build after none = .ok g ∧
        ∀ id, id ∈ g.nodes ↔ s.IsRoot id ∨ after.arena.isProcessed id = true) ∧
      ∀ strict after r, s.resolveReferences strict = (after, .ok r) →
        Graph.build after none = .ok g ∧
        Graph.build after (some r) = .ok
          { nodes := g.nodes
            edges := g.edges ++ r.resolutions.filterMap fun p => p.2.node?.map fun target =>
              ⟨p.1.node, target, .references⟩ } := by
  have hsound := (intact_new builtins dedup).sound.run hrun
  obtain ⟨g, hbuild, hsearch⟩ := hsound.exists_search hclosed
  have hreaches : ∀ id, id ∈ g.nodes ↔ s.Reaches id := fun _ => mem_nodes_iff_reaches hsearch
  refine ⟨g, hbuild, hsearch.nodup, hreaches, ?_, ?_, ?_, ?_⟩
  · intro p hp
    obtain ⟨d, hd⟩ := Arena.valid_iff.mp (hp.valid hsound.rooted hclosed)
    exact ⟨d, hd, by rw [hsearch.filter_edges ((hreaches p).mpr hp), Graph.edgesFrom_of_get? hd]⟩
  · intro e he
    rw [hsearch.edges] at he
    obtain ⟨p, hp, he⟩ := List.mem_flatMap.mp he
    rw [Graph.source_of_mem_edgesFrom he]
    exact (hreaches p).mp hp
  · intro hfresh σ visit state final after tally hwalk
    have hafter : Graph.build after none = Graph.build s none := by
      rw [marked_of_walkAll hwalk]
      exact build_marked s _ s.diagnostics none
    exact ⟨hafter.trans hbuild,
      fun id => (hreaches id).trans (reaches_iff_isProcessed hclosed hfresh hwalk)⟩
  · intro strict after r hresolve
    obtain ⟨ids, notes, hafter⟩ := exists_resolveReferences_fst s strict
    rw [hresolve] at hafter
    obtain rfl := hafter
    rw [build_marked, build_marked, build_some hbuild, Graph.addReferences_of_listed]
    · exact ⟨hbuild, rfl⟩
    · intro p hp target htarget
      rw [hreaches, hreaches]
      exact hsound.reaches_of_resolution hresolve hp htarget

/-! An element of a type that has the element as its child, twice. -/

def typedArena : Arena where
  nodes := #[
    { kind := .schema, space := "urn:a", children := [⟨1⟩, ⟨2⟩] },
    { kind := .element, name := some "item", space := "urn:a",
      attributes := .ofList [("type", "Item")] },
    { kind := .complexType, name := some "Item", space := "urn:a", children := [⟨1⟩, ⟨1⟩] }]

def typedSession : Session :=
  ((({ arena := typedArena } : Session).addDocument ⟨0⟩).toOption).getD {}

def typedRegistry : Registry where
  targetSpace := "urn:a"
  roots := [⟨0⟩]
  declarations := ((PerBucket.fill ∅).set .complexTypes (.ofList [("Item", ⟨2⟩)])).set .elements
    (.ofList [("item", ⟨1⟩)])

theorem run_typedSession : Run (fun a b => b.Keeps a) { builtins := .xsd, dedup := true } []
    typedSession := by
  have hkeeps : typedArena.Keeps ∅ := fun id d hd => by
    simp [Arena.get?, EmptyCollection.emptyCollection, Arena.empty] at hd
  have hadd : ({ arena := typedArena } : Session).addDocument ⟨0⟩ = .ok typedSession := rfl
  exact (Run.start.step (.edit typedArena hkeeps)).step (.add hadd)

theorem itinerary_typedSession : typedSession.itinerary =
    [.call ⟨⟨1⟩, ⟨0⟩, typedRegistry⟩, .call ⟨⟨2⟩, ⟨0⟩, typedRegistry⟩, .skip, .skip] := by
  have hregistries : typedSession.registries.values = [typedRegistry] := rfl
  have harena : typedSession.arena = typedArena := rfl
  rw [itinerary, hregistries, harena]
  simp [enterAll, typedArena, typedRegistry, route, Task.below, Arena.get?,
    Arena.markProcessed, Arena.modify]

/-- The reference on the element leads to the type. -/
theorem resolveReferences_typedSession : ∃ after r,
    typedSession.resolveReferences true = (after, .ok r) ∧
      r.resolutions = [(⟨⟨1⟩, "type"⟩, .declared "urn:a" .complexTypes ⟨2⟩)] := by
  have htaken : ∃ r, ({ builtins := typedSession.builtins, strict := true } : Resolver).takeAll
        ((calls typedSession.itinerary).flatMap (·.attempts typedSession)) = (r, none) ∧
      r.resolutions = [(⟨⟨1⟩, "type"⟩, .declared "urn:a" .complexTypes ⟨2⟩)] := by
    rw [itinerary_typedSession]
    exact ⟨_, rfl, by decide⟩
  obtain ⟨r, htaken, hresolutions⟩ := htaken
  have hrooted := ((intact_new .xsd true).sound.run run_typedSession).rooted
  exact ⟨_, r, resolveReferences_taken hrooted (by decide) htaken, hresolutions⟩

/-- The type has two edges to the element, and gets one from it. -/
theorem build_exact_typed :
    Run (fun a b => b.Keeps a) { builtins := .xsd, dedup := true } [] typedSession ∧
      typedSession.arena.Closed ∧ typedSession.arena.Unprocessed ∧
      (∃ after final tally, typedSession.walkAll counting 0 = (after, final, .ok tally) ∧
        ∀ id, typedSession.Reaches id ↔
          typedSession.IsRoot id ∨ after.arena.isProcessed id = true) ∧
      ∃ after r g, typedSession.resolveReferences true = (after, .ok r) ∧
        Graph.build after (some r) = .ok g ∧
        g.edges.filter (·.source = ⟨2⟩) = [⟨⟨2⟩, ⟨1⟩, .contains⟩, ⟨⟨2⟩, ⟨1⟩, .contains⟩] ∧
        g.edges.filter (·.source = ⟨1⟩) = [⟨⟨1⟩, ⟨2⟩, .references⟩] := by
  have hclosed : typedSession.arena.Closed := by decide
  have hfresh : typedSession.arena.Unprocessed := by decide
  have hrooted := ((intact_new .xsd true).sound.run run_typedSession).rooted
  obtain ⟨g, -, -, hnodes, hedges, -, hwalk, hresolve⟩ := build_exact run_typedSession hclosed
  have haccept : counting.Accepts := fun _ _ _ => rfl
  obtain ⟨final, tally, hrun⟩ := walkAll_accepting hrooted hclosed haccept 0
  obtain ⟨after, r, hafter, hresolutions⟩ := resolveReferences_typedSession
  obtain ⟨-, hbuild⟩ := hresolve true after r hafter
  have hroot : typedSession.IsRoot ⟨0⟩ := by
    rw [IsRoot]
    decide
  have hreaches : ∀ id ∈ [(⟨1⟩ : NodeId), ⟨2⟩], typedSession.Reaches id :=
    fun id hid => ⟨⟨0⟩, hroot, .single ⟨_, rfl, hid⟩⟩
  obtain ⟨item, hitem, hfirst⟩ := hedges ⟨1⟩ (hreaches _ (by simp))
  obtain ⟨type, htype, hsecond⟩ := hedges ⟨2⟩ (hreaches _ (by simp))
  obtain rfl := Option.some.inj hitem
  obtain rfl := Option.some.inj htype
  refine ⟨run_typedSession, hclosed, hfresh, ⟨_, final, tally, hrun, fun id => ?_⟩,
    after, r, _, hafter, hbuild, ?_, ?_⟩
  · rw [← hnodes, (hwalk hfresh _ _ _ _ _ _ hrun).2]
  · rw [hresolutions, List.filter_append, hsecond]
    rfl
  · rw [hresolutions, List.filter_append, hfirst]
    rfl

end Session

end SchemaCatalog
