import Mathlib.Data.List.Nodup
import SchemaCatalog.Proofs.Registry.Algebra
import SchemaCatalog.Proofs.Session.Integrity

/-!
# SchemaCatalog.Proofs.Graph.Search

The breadth-first search behind a declaration graph.  The list of nodes is at
the same time the table of what has been seen, so it is the nodes that are done
with, in the order in which they were taken off the queue, followed by the
queue itself.  That is the invariant of the search (`Search`): no node is taken
off twice, and each one that is done with has had its children listed and its
edges drawn (`Search.step`).  When the queue is empty all nodes are done with,
and they are what can be reached from where the search started
(`Search.mem_nodes_iff`, `Search.edges_eq`).

Apart from that, every graph that is built is *proper*: its nodes are listed
once and its edges run between them (`proper_build`).
-/

namespace SchemaCatalog

open Relation (ReflTransGen)

/-- Elements that are all new are appended as they are. -/
theorem appendNew_of_nodup {α : Type} [DecidableEq α] {xs ys : List α} (h : (xs ++ ys).Nodup) :
    appendNew xs ys = xs ++ ys := by
  induction ys generalizing xs with
  | nil => rw [List.append_nil]; rfl
  | cons y ys ih =>
      have hy : y ∉ xs := fun hmem =>
        (List.nodup_append.mp h).2.2 y hmem y List.mem_cons_self rfl
      rw [← List.singleton_append, ← List.append_assoc] at h
      rw [appendNew_cons, if_neg hy, ih h, List.append_assoc, List.singleton_append]

/-- Adding what is new repeats nothing. -/
theorem nodup_appendNew {α : Type} [DecidableEq α] {xs : List α} (h : xs.Nodup) (ys : List α) :
    (appendNew xs ys).Nodup := by
  induction ys generalizing xs with
  | nil => exact h
  | cons y ys ih =>
      rw [appendNew_cons]
      by_cases hy : y ∈ xs
      · rw [if_pos hy]
        exact ih h
      · rw [if_neg hy, ← List.concat_eq_append]
        exact ih (h.concat hy)

namespace Graph

/-! ## nodes -/

theorem addNodes_eq (nodes ids : List NodeId) : addNodes nodes ids = appendNew nodes ids := rfl

theorem addNode_eq (nodes : List NodeId) (id : NodeId) : addNode nodes id = appendNew nodes [id] :=
  rfl

/-- The nodes that are discovered among some are those that are not known. -/
theorem mem_discover {known ids : List NodeId} {id : NodeId} :
    id ∈ discover known ids ↔ id ∈ ids ∧ id ∉ known := by
  refine ⟨fun h => ⟨mem_of_mem_discover h, not_mem_of_mem_discover h⟩, fun h => ?_⟩
  obtain ⟨hmem, hknown⟩ := h
  induction ids generalizing known with
  | nil => contradiction
  | cons x ids ih =>
      rw [discover]
      by_cases hx : x ∈ known
      · rw [if_pos hx]
        refine ih ((List.mem_cons.mp hmem).resolve_left ?_) hknown
        rintro rfl
        exact hknown hx
      · rw [if_neg hx]
        by_cases hid : id = x
        · exact hid ▸ List.mem_cons_self
        · exact List.mem_cons_of_mem x (ih ((List.mem_cons.mp hmem).resolve_left hid)
            (by simp [hid, hknown]))

/-- A search discovers nothing twice. -/
theorem nodup_discover (known ids : List NodeId) : (discover known ids).Nodup := by
  induction ids generalizing known with
  | nil => exact .nil
  | cons x ids ih =>
      rw [discover]
      split
      · exact ih known
      · exact List.nodup_cons.mpr
          ⟨fun h => not_mem_of_mem_discover h List.mem_cons_self, ih (x :: known)⟩

/-- What is discovered is not listed yet. -/
theorem nodup_append_discover {nodes : List NodeId} (h : nodes.Nodup) (ids : List NodeId) :
    (nodes ++ discover nodes ids).Nodup :=
  List.nodup_append.mpr ⟨h, nodup_discover nodes ids,
    fun _ hx _ hy heq => not_mem_of_mem_discover hy (heq ▸ hx)⟩

/-! ## the search -/

/-- The edges from a declaration to its children, one for each time that a child
is listed. -/
def edgesFrom (a : Arena) (p : NodeId) : List Edge :=
  ((a.get? p).elim [] (·.children)).map fun c => ⟨p, c, .contains⟩

theorem edgesFrom_of_get? {a : Arena} {p : NodeId} {d : Declaration} (h : a.get? p = some d) :
    edgesFrom a p = d.children.map fun c => ⟨p, c, .contains⟩ := by
  rw [edgesFrom, h, Option.elim_some]

/-- The edges out of a node start there. -/
theorem source_of_mem_edgesFrom {a : Arena} {p : NodeId} {e : Edge} (h : e ∈ edgesFrom a p) :
    e.source = p := by
  obtain ⟨c, -, rfl⟩ := List.mem_map.mp h
  rfl

/-- How far a search from some nodes has come: `done` have been taken off the
queue, in this order. -/
structure Search (a : Arena) (starts : List NodeId) (g : Graph) (done queue : List NodeId) :
    Prop where
  nodes : g.nodes = done ++ queue
  nodup : g.nodes.Nodup
  edges : g.edges = done.flatMap (edgesFrom a)
  started : starts ⊆ g.nodes
  followed : ∀ p ∈ done, ∀ c, a.Edge p c → c ∈ g.nodes
  reached : ∀ id ∈ g.nodes, ∃ start ∈ starts, ReflTransGen a.Edge start id

section

variable {a : Arena} {starts done queue : List NodeId} {g : Graph}

/-- The search starts at the start nodes, with nothing taken yet. -/
theorem search_start (h : starts.Nodup) : Search a starts { nodes := starts } [] starts where
  nodes := rfl
  nodup := h
  edges := rfl
  started := List.Subset.refl _
  followed := fun _ hp => absurd hp List.not_mem_nil
  reached := fun id hid => ⟨id, hid, .refl⟩

/-- **One step** takes a node off the queue and puts what it discovers at the end
of both lists. -/
theorem Search.step {id : NodeId} (h : Search a starts g done (id :: queue)) {d : Declaration}
    (hd : a.get? id = some d) :
    Search a starts
      { nodes := g.nodes ++ discover g.nodes d.children
        edges := g.edges ++ d.children.map fun c => ⟨id, c, .contains⟩ }
      (done ++ [id]) (queue ++ discover g.nodes d.children) where
  nodes := by simp [h.nodes]
  nodup := nodup_append_discover h.nodup d.children
  edges := by
    rw [List.flatMap_append, ← h.edges, List.flatMap_singleton, edgesFrom_of_get? hd]
  started := List.subset_append_of_subset_left _ h.started
  followed := by
    intro p hp c hpc
    rw [List.mem_append, mem_discover]
    rcases List.mem_append.mp hp with hp | hp
    · exact .inl (h.followed p hp c hpc)
    · obtain ⟨d', hd', hc⟩ := hpc
      rw [List.mem_singleton.mp hp, hd] at hd'
      obtain rfl := Option.some.inj hd'
      by_cases hlisted : c ∈ g.nodes
      · exact .inl hlisted
      · exact .inr ⟨hc, hlisted⟩
  reached := by
    intro q hq
    rcases List.mem_append.mp hq with hq | hq
    · exact h.reached q hq
    · have hid : id ∈ g.nodes := by simp [h.nodes]
      obtain ⟨start, hstart, hpath⟩ := h.reached id hid
      exact ⟨start, hstart, hpath.tail ⟨d, hd, (mem_discover.mp hq).1⟩⟩

/-- **A whole search** ends with all of its nodes done. -/
theorem Search.run {g' : Graph} (h : Search a starts g done queue)
    (hrun : explore a g queue = .ok g') : Search a starts g' g'.nodes [] := by
  fun_induction explore a g queue generalizing done with
  | case1 g =>
      obtain rfl := Except.ok.inj hrun
      have hdone : done = g.nodes := by rw [h.nodes, List.append_nil]
      exact hdone ▸ h
  | case2 g id queue hget => contradiction
  | case3 g id queue d hget fresh =>
      rename_i ih
      exact ih (h.step hget) hrun

/-- The nodes are what can be reached. -/
theorem Search.mem_nodes_iff (h : Search a starts g g.nodes []) {id : NodeId} :
    id ∈ g.nodes ↔ ∃ start ∈ starts, ReflTransGen a.Edge start id := by
  refine ⟨h.reached id, ?_⟩
  rintro ⟨start, hstart, hpath⟩
  induction hpath with
  | refl => exact h.started hstart
  | tail _ hpq ih => exact h.followed _ ih _ hpq

/-- Each node has its edges, and there are no others. -/
theorem Search.filter_edges (h : Search a starts g g.nodes []) {p : NodeId} (hp : p ∈ g.nodes) :
    g.edges.filter (·.source = p) = edgesFrom a p := by
  have hall : (edgesFrom a p).filter (·.source = p) = edgesFrom a p :=
    List.filter_eq_self.mpr fun e he => decide_eq_true (source_of_mem_edgesFrom he)
  have hnodup : (g.nodes.map id).Nodup := by rw [List.map_id]; exact h.nodup
  rw [h.edges, filter_flatMap_of_unique hnodup hp, hall]
  intro q _ hne
  refine List.filter_eq_nil_iff.mpr fun e he => ?_
  rw [source_of_mem_edgesFrom he]
  simpa using hne

end

/-! ## proper graphs -/

/-- Nodes are listed once, and edges run between nodes. -/
structure Proper (g : Graph) : Prop where
  nodup : g.nodes.Nodup
  listed : ∀ e ∈ g.edges, e.source ∈ g.nodes ∧ e.target ∈ g.nodes

/-- A search keeps a graph proper, wherever it starts. -/
theorem Proper.explore {a : Arena} {g g' : Graph} (h : g.Proper) {queue : List NodeId}
    (hqueue : queue ⊆ g.nodes) (hrun : explore a g queue = .ok g') : g'.Proper := by
  fun_induction Graph.explore a g queue with
  | case1 g => exact Except.ok.inj hrun ▸ h
  | case2 g id queue hget => contradiction
  | case3 g id queue d hget fresh ih =>
      obtain ⟨hid, hqueue⟩ := List.cons_subset.mp hqueue
      refine ih ⟨nodup_append_discover h.nodup d.children, ?_⟩ ?_ hrun
      · intro e he
        rcases List.mem_append.mp he with he | he
        · exact (h.listed e he).imp (List.mem_append_left _) (List.mem_append_left _)
        · obtain ⟨c, hc, rfl⟩ := List.mem_map.mp he
          refine ⟨List.mem_append_left _ hid, ?_⟩
          rw [List.mem_append, mem_discover]
          by_cases hlisted : c ∈ g.nodes
          · exact .inl hlisted
          · exact .inr ⟨hc, hlisted⟩
      · exact List.append_subset.mpr
          ⟨List.subset_append_of_subset_left _ hqueue, List.subset_append_right _ _⟩

/-- A reference lists both of its ends. -/
theorem mem_nodes_addReference {g : Graph} {source target id : NodeId} :
    id ∈ (g.addReference source target).nodes ↔ id ∈ g.nodes ∨ id = source ∨ id = target := by
  simp only [addReference, addNode_eq, mem_appendNew, List.mem_singleton, or_assoc]

/-- A reference leaves a graph proper. -/
theorem Proper.addReference {g : Graph} (h : g.Proper) (source target : NodeId) :
    (g.addReference source target).Proper where
  nodup := by
    rw [Graph.addReference, addNode_eq, addNode_eq]
    exact nodup_appendNew (nodup_appendNew h.nodup _) _
  listed := by
    intro e he
    rw [mem_nodes_addReference, mem_nodes_addReference]
    rcases List.mem_append.mp he with he | he
    · exact (h.listed e he).imp .inl .inl
    · rw [List.mem_singleton.mp he]
      exact ⟨.inr (.inl rfl), .inr (.inr rfl)⟩

/-- What one resolution adds to a graph. -/
def refer (g : Graph) (p : Site × Resolution) : Graph :=
  match p.2.node? with
  | some target => g.addReference p.1.node target
  | none => g

theorem refer_some {p : Site × Resolution} {target : NodeId} (h : p.2.node? = some target)
    (g : Graph) : g.refer p = g.addReference p.1.node target := by
  rw [refer, h]

theorem refer_none {p : Site × Resolution} (h : p.2.node? = none) (g : Graph) : g.refer p = g := by
  rw [refer, h]

/-- The references are added one resolution after the other. -/
theorem addReferences_eq (g : Graph) (r : Resolver) :
    g.addReferences r = r.resolutions.foldl refer g := rfl

/-- The resolutions leave a graph proper. -/
theorem Proper.addReferences {g : Graph} (h : g.Proper) (r : Resolver) :
    (g.addReferences r).Proper := by
  rw [addReferences_eq]
  induction r.resolutions generalizing g with
  | nil => exact h
  | cons p ps ih =>
      rw [List.foldl_cons]
      cases hnode : p.2.node? with
      | some target =>
          rw [refer_some hnode]
          exact ih (h.addReference p.1.node target)
      | none =>
          rw [refer_none hnode]
          exact ih h

/-- **Every graph that is built is proper**, whatever the session and the
resolver. -/
theorem proper_build {s : Session} {resolver : Option Resolver} {g : Graph}
    (h : build s resolver = .ok g) : g.Proper := by
  rw [build] at h
  split at h
  · contradiction
  · next g₀ hrun =>
    have hstart : Proper { nodes := addNodes [] (s.registries.values.flatMap (·.roots)) } :=
      ⟨nodup_appendNew .nil _, fun e he => absurd he List.not_mem_nil⟩
    have hqueue : s.registries.values.flatMap (·.roots) ⊆
        addNodes [] (s.registries.values.flatMap (·.roots)) :=
      fun id hid => mem_appendNew.mpr (.inr hid)
    have hproper := hstart.explore hqueue hrun
    rw [← Except.ok.inj h]
    cases resolver with
    | none => exact hproper
    | some r => exact hproper.addReferences r

end Graph

end SchemaCatalog
