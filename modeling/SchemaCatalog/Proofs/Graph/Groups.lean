import SchemaCatalog.Proofs.Graph.Closure

/-!
# SchemaCatalog.Proofs.Graph.Groups

The recursive groups of a declaration graph.  Two nodes are *mutual* if each
leads to the other by at least one edge; a node is mutual with itself if it
lies on a cycle.  The groups are the classes of mutual nodes, each listed at
the node that comes first in it (`Proper.mem_recursiveGroups_iff`).

The other way to the groups starts from the strongly connected components, in
whatever order they come: those are kept that have two members or an edge from
the only one to itself, members are sorted, and then the groups are
(`groupsOf`).  A component with a node on a cycle is the class of that node
(`Components.mem_iff_mutual`), one without such a node is not kept
(`Components.recurs_iff`), and there is one way to sort (`ext_of_sorted`), so
both ways lead to the same list (`Components.groupsOf_eq`).
-/

namespace SchemaCatalog.Graph

open Relation (ReflTransGen TransGen)

/-! ## lists in order -/

section

variable {α : Type} [Ord α] {xs ys : List α}

def sort (xs : List α) : List α := xs.mergeSort fun x y => (compare x y).isLE

theorem mem_sort {x : α} : x ∈ sort xs ↔ x ∈ xs := List.mem_mergeSort

/-- A strictly sorted list repeats nothing. -/
theorem nodup_of_sorted [Std.ReflOrd α] (h : xs.Pairwise (compare · · = .lt)) : xs.Nodup := by
  refine h.imp fun {x y} hlt heq => ?_
  rw [heq, Std.compare_self] at hlt
  contradiction

variable [Std.LawfulEqOrd α]

/-- A sorted list that repeats nothing is strictly sorted. -/
theorem sorted_of_nodup (hle : xs.Pairwise fun x y => (compare x y).isLE = true)
    (hnodup : xs.Nodup) : xs.Pairwise (compare · · = .lt) := by
  refine (hle.and hnodup).imp fun {x y} hboth => ?_
  obtain ⟨hle, hne⟩ := hboth
  exact (Ordering.isLE_iff_eq_lt_or_eq_eq.mp hle).resolve_right
    fun heq => hne (Std.LawfulEqCmp.eq_of_compare heq)

variable [Std.TransOrd α]

/-- Sorting a list that repeats nothing sorts it strictly. -/
theorem sorted_sort (h : xs.Nodup) : (sort xs).Pairwise (compare · · = .lt) := by
  have htotal : ∀ x y : α, ((compare x y).isLE || (compare y x).isLE) = true := by
    intro x y
    have hswap : compare y x = (compare x y).swap := Std.OrientedCmp.eq_swap
    rw [hswap]
    cases compare x y <;> rfl
  exact sorted_of_nodup
    (List.pairwise_mergeSort (fun _ _ _ => Std.TransCmp.isLE_trans) htotal xs)
    ((List.mergeSort_perm xs _).nodup_iff.mpr h)

/-- **There is one way to sort.**  Two lists in order are equal if they have the
same members. -/
theorem ext_of_sorted (hxs : xs.Pairwise (compare · · = .lt))
    (hys : ys.Pairwise (compare · · = .lt)) (h : ∀ x, x ∈ xs ↔ x ∈ ys) : xs = ys := by
  have hperm := (List.perm_ext_iff_of_nodup (nodup_of_sorted hxs) (nodup_of_sorted hys)).mpr h
  refine hperm.eq_of_pairwise (fun x y _ _ hlt hgt => ?_) hxs hys
  rw [Std.OrientedCmp.gt_iff_lt.mpr hgt] at hlt
  contradiction

end

/-! ## groups as they are computed -/

/-- Each leads to the other by at least one edge. -/
def Mutual (g : Graph) (p q : NodeId) : Prop := TransGen g.Arrow p q ∧ TransGen g.Arrow q p

/-- What the matrix says of two nodes. -/
def together (g : Graph) (p q : NodeId) : Bool :=
  g.adjacency.closure.leads (g.nodes.idxOf p) (g.nodes.idxOf q) &&
    g.adjacency.closure.leads (g.nodes.idxOf q) (g.nodes.idxOf p)

/-- The nodes by id. -/
def byId (g : Graph) : List NodeId := g.placed.map (·.1)

def group (g : Graph) (p : NodeId) : List NodeId := g.byId.filter (g.together p)

section

variable {g : Graph} {p q r : NodeId}

theorem Mutual.symm (h : g.Mutual p q) : g.Mutual q p := ⟨h.2, h.1⟩

theorem Mutual.trans (hpq : g.Mutual p q) (hqr : g.Mutual q r) : g.Mutual p r :=
  ⟨hpq.1.trans hqr.1, hqr.2.trans hpq.2⟩

theorem Mutual.self (h : g.Mutual p q) : g.Mutual p p := h.trans h.symm

theorem mutual_self_iff : g.Mutual p p ↔ TransGen g.Arrow p p := and_self_iff

/-- Nodes that reach each other are listed. -/
theorem Proper.mem_of_mutual (h : g.Proper) (hpq : g.Mutual p q) : p ∈ g.nodes := by
  obtain ⟨r, hpr, -⟩ := TransGen.head'_iff.mp hpq.1
  exact h.mem_left hpr

/-- The closure leads out of listed nodes only. -/
theorem mem_of_leads {j : Nat} (h : g.adjacency.closure.leads (g.nodes.idxOf p) j = true) :
    p ∈ g.nodes := by
  have hlt := Matrix.lt_size_of_leads h
  rw [Matrix.closure, Matrix.size_foldl_through, adjacency, List.size_toArray, List.length_map]
    at hlt
  exact List.idxOf_lt_length_iff.mp hlt

/-- The matrix puts two nodes together exactly when they reach each other. -/
theorem Proper.together_iff (h : g.Proper) : g.together p q = true ↔ g.Mutual p q := by
  rw [together, Bool.and_eq_true]
  constructor
  · rintro ⟨hpq, hqp⟩
    have hp := mem_of_leads hpq
    have hq := mem_of_leads hqp
    exact ⟨(h.leads_idxOf_iff hp hq).mp hpq, (h.leads_idxOf_iff hq hp).mp hqp⟩
  · intro hmutual
    have hp := h.mem_of_mutual hmutual
    have hq := h.mem_of_mutual hmutual.symm
    exact ⟨(h.leads_idxOf_iff hp hq).mpr hmutual.1, (h.leads_idxOf_iff hq hp).mpr hmutual.2⟩

/-- A node is placed at its row. -/
theorem Proper.mem_placed_iff (h : g.Proper) {i : Nat} :
    (p, i) ∈ g.placed ↔ p ∈ g.nodes ∧ g.nodes.idxOf p = i := by
  rw [placed, List.mem_mergeSort, List.mem_zipIdx_iff_getElem?]
  constructor
  · intro hi
    have hp : p ∈ g.nodes := List.mem_of_getElem? hi
    exact ⟨hp, (h.idxOf_eq_iff hp).mpr hi⟩
  · rintro ⟨hp, hi⟩
    exact (h.idxOf_eq_iff hp).mp hi

theorem perm_byId (g : Graph) : g.byId.Perm g.nodes := by
  have hperm := (List.mergeSort_perm g.nodes.zipIdx fun v w => v.1.index ≤ w.1.index).map (·.1)
  rwa [List.zipIdx_map_fst] at hperm

/-- The nodes by id are strictly sorted. -/
theorem Proper.sorted_byId (h : g.Proper) : g.byId.Pairwise (compare · · = .lt) := by
  have hle : g.placed.Pairwise fun v w => decide (v.1.index ≤ w.1.index) = true :=
    List.pairwise_mergeSort (fun _ _ _ => by simpa using Nat.le_trans)
      (fun v w => by simpa using Nat.le_total v.1.index w.1.index) _
  refine sorted_of_nodup (List.pairwise_map.mpr (hle.imp fun {v w} hvw => ?_))
    (g.perm_byId.nodup_iff.mpr h.nodup)
  exact Nat.isLE_compare.mpr (of_decide_eq_true hvw)

/-- The group of a node is what it reaches and is reached by. -/
theorem Proper.mem_group_iff (h : g.Proper) : q ∈ g.group p ↔ g.Mutual p q := by
  rw [group, List.mem_filter, g.perm_byId.mem_iff, h.together_iff]
  exact ⟨And.right, fun hmutual => ⟨h.mem_of_mutual hmutual.symm, hmutual⟩⟩

/-- A group is strictly sorted. -/
theorem Proper.sorted_group (h : g.Proper) (p : NodeId) :
    (g.group p).Pairwise (compare · · = .lt) :=
  h.sorted_byId.filter _

/-- Mutual nodes have the same group. -/
theorem Proper.group_eq_of_mutual (h : g.Proper) (hpq : g.Mutual p q) : g.group p = g.group q := by
  refine ext_of_sorted (h.sorted_group p) (h.sorted_group q) fun r => ?_
  rw [h.mem_group_iff, h.mem_group_iff]
  exact ⟨hpq.symm.trans, hpq.trans⟩

/-- The rows put together with a node are its group. -/
theorem Proper.map_filter_placed (h : g.Proper) {f : NodeId × Nat → Bool}
    (hf : ∀ q, f (q, g.nodes.idxOf q) = g.together p q) :
    (g.placed.filter f).map (·.1) = g.group p := by
  rw [group, byId, List.filter_map]
  refine congrArg (List.map _) (List.filter_congr fun e he => ?_)
  obtain ⟨q, j⟩ := e
  obtain ⟨-, rfl⟩ := h.mem_placed_iff.mp he
  exact hf q

/-- The groups are taken at their first members. -/
theorem Proper.recursiveGroups_eq (h : g.Proper) :
    g.recursiveGroups =
      g.byId.filterMap fun p => if (g.group p).head? = some p then some (g.group p) else none := by
  rw [recursiveGroups, byId, List.filterMap_map]
  refine List.filterMap_congr fun e he => ?_
  obtain ⟨p, i⟩ := e
  obtain ⟨-, rfl⟩ := h.mem_placed_iff.mp he
  simp only [Function.comp_apply]
  rw [h.map_filter_placed fun q => rfl]

/-- **The groups** are the classes of mutual nodes. -/
theorem Proper.mem_recursiveGroups_iff (h : g.Proper) {c : List NodeId} :
    c ∈ g.recursiveGroups ↔ ∃ p, g.Mutual p p ∧ c = g.group p := by
  rw [h.recursiveGroups_eq, List.mem_filterMap]
  constructor
  · rintro ⟨p, -, hc⟩
    obtain ⟨hhead, heq⟩ := Option.ite_some_none_eq_some.mp hc
    exact ⟨p, h.mem_group_iff.mp (List.mem_of_head? hhead), heq.symm⟩
  · rintro ⟨p, hp, rfl⟩
    have hne := List.ne_nil_of_mem (h.mem_group_iff.mpr hp)
    obtain ⟨q, rest, hcons⟩ := List.exists_cons_of_ne_nil hne
    have hq : g.Mutual p q := h.mem_group_iff.mp (hcons ▸ List.mem_cons_self)
    refine ⟨q, g.perm_byId.mem_iff.mpr (h.mem_of_mutual hq.symm), ?_⟩
    rw [← h.group_eq_of_mutual hq, if_pos (by rw [hcons, List.head?_cons])]

/-- The groups are listed by their first members. -/
theorem Proper.heads_increase (h : g.Proper) :
    g.recursiveGroups.Pairwise fun c c' => ∃ p q, c = g.group p ∧ c' = g.group q ∧
      c.head? = some p ∧ c'.head? = some q ∧ compare p q = .lt := by
  rw [h.recursiveGroups_eq]
  refine h.sorted_byId.filterMap _ fun p q hlt c hc c' hc' => ?_
  obtain ⟨hp, rfl⟩ := Option.ite_some_none_eq_some.mp hc
  obtain ⟨hq, rfl⟩ := Option.ite_some_none_eq_some.mp hc'
  exact ⟨p, q, rfl, rfl, hp, hq, hlt⟩

/-- Groups have no members in common, and none has one twice. -/
theorem Proper.nodup_flatten (h : g.Proper) : g.recursiveGroups.flatten.Nodup := by
  refine List.nodup_flatten.mpr ⟨fun c hc => ?_, h.heads_increase.imp fun hheads => ?_⟩
  · obtain ⟨p, -, rfl⟩ := h.mem_recursiveGroups_iff.mp hc
    exact nodup_of_sorted (h.sorted_group p)
  · obtain ⟨p, q, rfl, rfl, hp, hq, hlt⟩ := hheads
    intro r hpr hqr
    have hpq : g.Mutual p q := (h.mem_group_iff.mp hpr).trans (h.mem_group_iff.mp hqr).symm
    rw [h.group_eq_of_mutual hpq, hq, Option.some.injEq] at hp
    rw [hp, Std.compare_self] at hlt
    contradiction

/-- The list of groups is in order. -/
theorem Proper.sorted_recursiveGroups (h : g.Proper) :
    g.recursiveGroups.Pairwise (compare · · = .lt) := by
  refine h.heads_increase.imp fun hheads => ?_
  obtain ⟨p, q, -, -, hp, hq, hlt⟩ := hheads
  obtain ⟨rest, rfl⟩ := List.head?_eq_some_iff.mp hp
  obtain ⟨rest', rfl⟩ := List.head?_eq_some_iff.mp hq
  rw [List.compare_eq_compareLex, List.compareLex_cons_cons, hlt]
  rfl

end

/-! ## groups from components -/

/-- The strongly connected components, in any order. -/
structure Components (g : Graph) (components : List (List NodeId)) : Prop where
  perm : components.flatten.Perm g.nodes
  nonempty : ∀ c ∈ components, c ≠ []
  mem_iff : ∀ c ∈ components, ∀ p ∈ c, ∀ q ∈ g.nodes,
    (q ∈ c ↔ ReflTransGen g.Arrow p q ∧ ReflTransGen g.Arrow q p)

/-- Has two members, or an edge from the first to itself. -/
def recurs (g : Graph) (c : List NodeId) : Bool :=
  1 < c.length || g.edges.any fun e => c.head? = some e.source && c.head? = some e.target

/-- Keeps the components that recur, and sorts their members and then the list. -/
def groupsOf (g : Graph) (components : List (List NodeId)) : List (List NodeId) :=
  sort ((components.filter g.recurs).map sort)

section

variable {g : Graph} {components : List (List NodeId)} {c : List NodeId} {p q : NodeId}

/-- A component is made of nodes of the graph. -/
theorem Components.mem_nodes (h : g.Components components) (hc : c ∈ components) (hp : p ∈ c) :
    p ∈ g.nodes :=
  h.perm.mem_iff.mp (List.mem_flatten_of_mem hc hp)

/-- A component of a proper graph repeats no node. -/
theorem Components.nodup (h : g.Components components) (hg : g.Proper) (hc : c ∈ components) :
    c.Nodup :=
  (List.nodup_flatten.mp (h.perm.nodup_iff.mpr hg.nodup)).1 c hc

/-- Two members of a component are mutual. -/
theorem Components.mutual_of_ne (h : g.Components components) (hc : c ∈ components) (hp : p ∈ c)
    (hq : q ∈ c) (hne : p ≠ q) : g.Mutual p q := by
  obtain ⟨hpq, hqp⟩ := (h.mem_iff c hc p hp q (h.mem_nodes hc hq)).mp hq
  exact ⟨(Relation.reflTransGen_iff_eq_or_transGen.mp hpq).resolve_left (Ne.symm hne),
    (Relation.reflTransGen_iff_eq_or_transGen.mp hqp).resolve_left hne⟩

/-- A component with a node on a cycle is the class of the node. -/
theorem Components.mem_iff_mutual (h : g.Components components) (hg : g.Proper)
    (hc : c ∈ components) (hp : p ∈ c) (hself : g.Mutual p p) : q ∈ c ↔ g.Mutual p q := by
  constructor
  · intro hq
    by_cases hpq : p = q
    · exact hpq ▸ hself
    · exact h.mutual_of_ne hc hp hq hpq
  · intro hmutual
    exact (h.mem_iff c hc p hp q (hg.mem_of_mutual hmutual.symm)).mpr
      ⟨hmutual.1.to_reflTransGen, hmutual.2.to_reflTransGen⟩

/-- The components that recur are those with a node on a cycle. -/
theorem Components.recurs_iff (h : g.Components components) (hg : g.Proper)
    (hc : c ∈ components) : g.recurs c = true ↔ ∃ p ∈ c, g.Mutual p p := by
  rw [recurs, Bool.or_eq_true, decide_eq_true_eq, List.any_eq_true]
  constructor
  · rintro (hlong | ⟨e, he, hloop⟩)
    · match c, hlong with
      | p :: q :: rest, _ =>
        have hne : p ≠ q := fun heq =>
          (List.nodup_cons.mp (h.nodup hg hc)).1 (heq ▸ List.mem_cons_self)
        exact ⟨p, by simp, (h.mutual_of_ne hc (by simp) (by simp) hne).self⟩
    · simp only [Bool.and_eq_true, decide_eq_true_eq] at hloop
      obtain ⟨hsource, htarget⟩ := hloop
      have heq : e.target = e.source := Option.some.inj (htarget.symm.trans hsource)
      exact ⟨e.source, List.mem_of_head? hsource, mutual_self_iff.mpr (.single ⟨e, he, rfl, heq⟩)⟩
  · rintro ⟨p, hp, hself⟩
    refine (Nat.lt_or_ge 1 c.length).imp_right fun hshort => ?_
    have hone : c.length = 1 := Nat.le_antisymm hshort (List.length_pos_of_mem hp)
    obtain ⟨p', rfl⟩ := List.length_eq_one_iff.mp hone
    obtain rfl := List.mem_singleton.mp hp
    -- a path back starts with an edge to a member of the component, of which there is one
    obtain ⟨r, hpr, hrp⟩ := TransGen.head'_iff.mp hself.1
    have hr := (h.mem_iff _ hc p hp r (hg.mem_right hpr)).mpr ⟨.single hpr, hrp⟩
    obtain ⟨e, he, hsource, htarget⟩ := hpr
    exact ⟨e, he, by simp [hsource, htarget, List.mem_singleton.mp hr]⟩

/-- Sorted, it is the group of the node. -/
theorem Components.sort_eq (h : g.Components components) (hg : g.Proper)
    (hc : c ∈ components) (hp : p ∈ c) (hself : g.Mutual p p) : sort c = g.group p :=
  ext_of_sorted (sorted_sort (h.nodup hg hc)) (hg.sorted_group p) fun q => by
    rw [mem_sort, h.mem_iff_mutual hg hc hp hself, hg.mem_group_iff]

/-- The components that recur, sorted, are the groups. -/
theorem Components.mem_recursiveGroups_iff (h : g.Components components) (hg : g.Proper) :
    c ∈ g.recursiveGroups ↔ c ∈ (components.filter g.recurs).map sort := by
  simp only [hg.mem_recursiveGroups_iff, List.mem_map, List.mem_filter]
  constructor
  · rintro ⟨p, hself, rfl⟩
    obtain ⟨c, hc, hp⟩ := List.mem_flatten.mp (h.perm.mem_iff.mpr (hg.mem_of_mutual hself))
    exact ⟨c, ⟨hc, (h.recurs_iff hg hc).mpr ⟨p, hp, hself⟩⟩, h.sort_eq hg hc hp hself⟩
  · rintro ⟨c, ⟨hc, hrecurs⟩, rfl⟩
    obtain ⟨p, hp, hself⟩ := (h.recurs_iff hg hc).mp hrecurs
    exact ⟨p, hself, h.sort_eq hg hc hp hself⟩

/-- No two components are the same when they are sorted. -/
theorem Components.nodup_map_sort (h : g.Components components) (hg : g.Proper) :
    ((components.filter g.recurs).map sort).Nodup := by
  have hapart := (List.nodup_flatten.mp (h.perm.nodup_iff.mpr hg.nodup)).2
  refine List.pairwise_map.mpr ((hapart.filter g.recurs).imp_of_mem fun {c c'} hc _ hdisjoint => ?_)
  intro heq
  obtain ⟨p, hp⟩ := List.exists_mem_of_ne_nil c (h.nonempty c (List.mem_of_mem_filter hc))
  exact hdisjoint hp (mem_sort.mp (heq ▸ mem_sort.mpr hp))

/-- **Both ways lead to the same groups**, whatever the order of the components and
of their members. -/
theorem Components.groupsOf_eq (h : g.Components components) (hg : g.Proper) :
    g.groupsOf components = g.recursiveGroups :=
  ext_of_sorted (sorted_sort (h.nodup_map_sort hg)) hg.sorted_recursiveGroups fun c => by
    rw [groupsOf, mem_sort, h.mem_recursiveGroups_iff hg]

end

/-- **Recursive groups are the cycles' components**, on every proper graph, as each
graph that is built is (`proper_build`).  A node is in some group if and only
if it lies on a cycle; two nodes are in one group if and only if each leads to
the other by at least one edge; no node is listed twice; and groups are sorted
by id, and so is the list of groups.  If the strongly connected components are
given, then in whatever order they come, keeping those that recur and sorting
yields this list. -/
theorem recursiveGroups_exact {g : Graph} (h : g.Proper) :
    (∀ p, (∃ c ∈ g.recursiveGroups, p ∈ c) ↔ TransGen g.Arrow p p) ∧
    (∀ p q, (∃ c ∈ g.recursiveGroups, p ∈ c ∧ q ∈ c) ↔
      TransGen g.Arrow p q ∧ TransGen g.Arrow q p) ∧
    g.recursiveGroups.flatten.Nodup ∧
    (∀ c ∈ g.recursiveGroups, c.Pairwise (compare · · = .lt)) ∧
    g.recursiveGroups.Pairwise (compare · · = .lt) ∧
    ∀ components, g.Components components → g.groupsOf components = g.recursiveGroups := by
  have htogether : ∀ p q, (∃ c ∈ g.recursiveGroups, p ∈ c ∧ q ∈ c) ↔ g.Mutual p q := by
    intro p q
    constructor
    · rintro ⟨c, hc, hp, hq⟩
      obtain ⟨r, -, rfl⟩ := h.mem_recursiveGroups_iff.mp hc
      exact (h.mem_group_iff.mp hp).symm.trans (h.mem_group_iff.mp hq)
    · intro hmutual
      exact ⟨g.group p, h.mem_recursiveGroups_iff.mpr ⟨p, hmutual.self, rfl⟩,
        h.mem_group_iff.mpr hmutual.self, h.mem_group_iff.mpr hmutual⟩
  refine ⟨fun p => ?_, htogether, h.nodup_flatten, fun c hc => ?_, h.sorted_recursiveGroups,
    fun components hcomponents => hcomponents.groupsOf_eq h⟩
  · rw [← mutual_self_iff, ← htogether]
    simp only [and_self]
  · obtain ⟨p, -, rfl⟩ := h.mem_recursiveGroups_iff.mp hc
    exact h.sorted_group p

/-! A type whose child refers back to it, with two edges to the child, and an
element that refers to itself, all below one document. -/

def loopedGraph : Graph where
  nodes := [⟨0⟩, ⟨3⟩, ⟨1⟩, ⟨2⟩]
  edges := [⟨⟨0⟩, ⟨3⟩, .contains⟩, ⟨⟨0⟩, ⟨1⟩, .contains⟩, ⟨⟨3⟩, ⟨2⟩, .contains⟩,
    ⟨⟨3⟩, ⟨2⟩, .contains⟩, ⟨⟨1⟩, ⟨1⟩, .references⟩, ⟨⟨2⟩, ⟨3⟩, .references⟩]

theorem proper_loopedGraph : loopedGraph.Proper where
  nodup := by decide
  listed := by decide

theorem components_loopedGraph : loopedGraph.Components [[⟨3⟩, ⟨2⟩], [⟨1⟩], [⟨0⟩]] where
  perm := by decide
  nonempty := by decide
  mem_iff := by
    intro c hc p hp q hq
    have hp' : p ∈ loopedGraph.nodes := by
      revert c p
      decide
    rw [proper_loopedGraph.reflTransGen_iff hp' hq, proper_loopedGraph.reflTransGen_iff hq hp']
    revert c p q
    decide +kernel

/-- The groups are the same if the components are given the other way round. -/
theorem recursiveGroups_exact_looped :
    loopedGraph.Proper ∧ loopedGraph.Components [[⟨3⟩, ⟨2⟩], [⟨1⟩], [⟨0⟩]] ∧
      loopedGraph.groupsOf [[⟨3⟩, ⟨2⟩], [⟨1⟩], [⟨0⟩]] = loopedGraph.recursiveGroups ∧
      (∃ c ∈ loopedGraph.recursiveGroups, ⟨1⟩ ∈ c) ∧
      ∃ c ∈ loopedGraph.recursiveGroups, ⟨2⟩ ∈ c ∧ ⟨3⟩ ∈ c := by
  obtain ⟨hcycle, hmutual, -, -, -, hcomponents⟩ := recursiveGroups_exact proper_loopedGraph
  have hself : loopedGraph.Arrow ⟨1⟩ ⟨1⟩ := ⟨⟨⟨1⟩, ⟨1⟩, .references⟩, by decide, rfl, rfl⟩
  have hdown : loopedGraph.Arrow ⟨3⟩ ⟨2⟩ := ⟨⟨⟨3⟩, ⟨2⟩, .contains⟩, by decide, rfl, rfl⟩
  have hup : loopedGraph.Arrow ⟨2⟩ ⟨3⟩ := ⟨⟨⟨2⟩, ⟨3⟩, .references⟩, by decide, rfl, rfl⟩
  exact ⟨proper_loopedGraph, components_loopedGraph, hcomponents _ components_loopedGraph,
    (hcycle ⟨1⟩).mpr (.single hself), (hmutual ⟨2⟩ ⟨3⟩).mpr ⟨.single hup, .single hdown⟩⟩

example : loopedGraph.recursiveGroups = [[⟨1⟩], [⟨2⟩, ⟨3⟩]] := by cbv

end SchemaCatalog.Graph
