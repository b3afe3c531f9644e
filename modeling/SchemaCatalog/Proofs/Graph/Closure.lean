import Mathlib.Logic.Relation
import SchemaCatalog.Graph.Cycles
import SchemaCatalog.Proofs.Graph.Search

/-!
# SchemaCatalog.Proofs.Graph.Closure

Warshall's method on bit rows.  Once paths may go through a node, the relation
is transitive there (`passes_through_self`), and it stays so when more nodes
are let in (`Passes.through`).  After all nodes the relation is transitive at
each of them, and since it holds no more than what paths make
(`transGen_of_leads_foldl`), it is the transitive closure
(`leads_closure_iff`).

On a proper graph the matrix of the single edges says of places what the edges
say of nodes, and so does its closure of paths (`Proper.leads_closure_iff`).
-/

namespace SchemaCatalog.Graph

open Relation (ReflTransGen TransGen)

namespace Matrix

variable {m : Matrix}

/-! ## one step -/

theorem leads_eq_false_of_size_le {i : Nat} (h : m.size ≤ i) (j : Nat) : m.leads i j = false := by
  rw [leads, Array.getD_eq_getD_getElem?, Array.getElem?_eq_none h, Option.getD_none,
    Nat.zero_testBit]

/-- A matrix leads out of its own rows only. -/
theorem lt_size_of_leads {i j : Nat} (h : m.leads i j = true) : i < m.size := by
  refine Nat.lt_of_not_le fun hle => ?_
  rw [leads_eq_false_of_size_le hle] at h
  contradiction

@[simp] theorem size_through (m : Matrix) (k : Nat) : (m.through k).size = m.size := by
  rw [through, Array.size_map]

/-- The rows that lead to a node get its row on top. -/
theorem getD_through (m : Matrix) (k i : Nat) :
    (m.through k).getD i 0 =
      if m.leads i k then m.getD i 0 ||| m.getD k 0 else m.getD i 0 := by
  rw [leads]
  by_cases hi : i < m.size
  · simp [through, Array.getD_eq_getD_getElem?, hi]
  · simp [through, Array.getD_eq_getD_getElem?, hi]

/-- **One step** lets paths go through one more node. -/
theorem leads_through_iff {k i j : Nat} :
    (m.through k).leads i j = true ↔
      m.leads i j = true ∨ m.leads i k = true ∧ m.leads k j = true := by
  rw [leads, getD_through]
  cases hk : m.leads i k with
  | false => simp [leads]
  | true => simp [leads, Nat.testBit_or]

/-! ## all steps -/

/-- The relation is transitive at a node. -/
def Passes (m : Matrix) (k : Nat) : Prop :=
  ∀ i j, m.leads i k = true → m.leads k j = true → m.leads i j = true

/-- Once a row has been gone through, each way by it has its shortcut. -/
theorem passes_through_self (m : Matrix) (k : Nat) : (m.through k).Passes k := by
  intro i j hik hkj
  rw [leads_through_iff] at *
  refine .inr ⟨?_, ?_⟩
  · exact hik.elim id And.left
  · exact hkj.elim id And.right

/-- Where the relation is transitive it stays so. -/
theorem Passes.through {k : Nat} (h : m.Passes k) (pivot : Nat) : (m.through pivot).Passes k := by
  intro i j hik hkj
  rw [leads_through_iff] at *
  rcases hik with hik | ⟨hip, hpk⟩ <;> rcases hkj with hkj | ⟨hkp, hpj⟩
  · exact .inl (h i j hik hkj)
  · exact .inr ⟨h i pivot hik hkp, hpj⟩
  · exact .inr ⟨hip, h pivot j hpk hkj⟩
  · exact .inr ⟨hip, hpj⟩

@[simp] theorem size_foldl_through (m : Matrix) (ks : List Nat) :
    (ks.foldl through m).size = m.size := by
  induction ks generalizing m with
  | nil => rfl
  | cons k ks ih => rw [List.foldl_cons, ih, size_through]

/-- Shortcuts stay as further rows are gone through. -/
theorem Passes.foldl {k : Nat} (h : m.Passes k) (ks : List Nat) :
    (ks.foldl Matrix.through m).Passes k := by
  induction ks generalizing m with
  | nil => exact h
  | cons pivot ks ih => exact ih (h.through pivot)

/-- **All steps** make the relation transitive at all of their nodes. -/
theorem passes_foldl {ks : List Nat} {k : Nat} (hk : k ∈ ks) (m : Matrix) :
    (ks.foldl through m).Passes k := by
  induction ks generalizing m with
  | nil => contradiction
  | cons pivot ks ih =>
      rcases List.mem_cons.mp hk with rfl | hk
      · exact (passes_through_self m k).foldl ks
      · exact ih hk (m.through pivot)

/-- No way is lost as rows are gone through. -/
theorem leads_foldl_of_leads {i j : Nat} (h : m.leads i j = true) (ks : List Nat) :
    (ks.foldl through m).leads i j = true := by
  induction ks generalizing m with
  | nil => exact h
  | cons k ks ih => exact ih (leads_through_iff.mpr (.inl h))

/-- The steps add nothing but paths. -/
theorem transGen_of_leads_foldl {ks : List Nat} {i j : Nat}
    (h : (ks.foldl through m).leads i j = true) : TransGen (fun i j => m.leads i j = true) i j := by
  induction ks generalizing m with
  | nil => exact .single h
  | cons k ks ih =>
      refine TransGen.closed (fun i j hij => ?_) i j (ih h)
      rcases leads_through_iff.mp hij with hij | ⟨hik, hkj⟩
      · exact .single hij
      · exact .tail (.single hik) hkj

/-- **Warshall's method** yields the transitive closure. -/
theorem leads_closure_iff {i j : Nat} :
    m.closure.leads i j = true ↔ TransGen (fun i j => m.leads i j = true) i j := by
  refine ⟨transGen_of_leads_foldl, fun h => ?_⟩
  induction h with
  | single hij => exact leads_foldl_of_leads hij _
  | @tail k j _ hkj ih =>
      have hk : k ∈ List.range m.size := List.mem_range.mpr (lt_size_of_leads hkj)
      exact passes_foldl hk m i j ih (leads_foldl_of_leads hkj _)

end Matrix

/-! ## the matrix of a graph -/

/-- An edge, of whichever kind, leads from one node to another. -/
def Arrow (g : Graph) (p q : NodeId) : Prop := ∃ e ∈ g.edges, e.source = p ∧ e.target = q

/-- A row that is filled bit by bit has the bits it had and those that were set. -/
theorem testBit_foldl_or {α : Type} (f : α → Nat) (xs : List α) (row j : Nat) :
    (xs.foldl (fun row x => row ||| 1 <<< f x) row).testBit j = true ↔
      row.testBit j = true ∨ ∃ x ∈ xs, f x = j := by
  induction xs generalizing row with
  | nil => simp
  | cons x xs ih =>
      rw [List.foldl_cons, ih, Nat.testBit_or, Nat.one_shiftLeft, Nat.testBit_two_pow]
      simp [or_assoc]

/-- The matrix says where the edges out of a node lead. -/
theorem leads_adjacency_iff {g : Graph} {i j : Nat} :
    g.adjacency.leads i j = true ↔
      ∃ p, g.nodes[i]? = some p ∧ ∃ e ∈ g.edges, e.source = p ∧ g.nodes.idxOf e.target = j := by
  rw [Matrix.leads, adjacency, Array.getD_eq_getD_getElem?, List.getElem?_toArray,
    List.getElem?_map]
  cases hp : g.nodes[i]? with
  | none => simp
  | some p =>
      rw [Option.map_some, Option.getD_some, testBit_foldl_or, Nat.zero_testBit]
      simp only [Bool.false_eq_true, false_or, List.mem_filter, decide_eq_true_eq, and_assoc,
        Option.some.injEq, exists_eq_left']

section

variable {g : Graph} {i j : Nat} {p q : NodeId}

/-- The row of a node is its place in the list. -/
theorem Proper.idxOf_eq_iff (h : g.Proper) (hq : q ∈ g.nodes) :
    g.nodes.idxOf q = j ↔ g.nodes[j]? = some q := by
  constructor
  · rintro rfl
    exact List.getElem?_idxOf hq
  · intro hj
    obtain ⟨hlt, rfl⟩ := List.getElem?_eq_some_iff.mp hj
    exact h.nodup.idxOf_getElem j hlt

/-- The adjacency matrix leads along the arrows. -/
theorem Proper.leads_adjacency_iff (h : g.Proper) :
    g.adjacency.leads i j = true ↔
      ∃ p q, g.nodes[i]? = some p ∧ g.nodes[j]? = some q ∧ g.Arrow p q := by
  rw [Graph.leads_adjacency_iff]
  constructor
  · rintro ⟨p, hp, e, he, hsource, hj⟩
    exact ⟨p, e.target, hp, (h.idxOf_eq_iff (h.listed e he).2).mp hj, e, he, hsource, rfl⟩
  · rintro ⟨p, q, hp, hq, e, he, hsource, rfl⟩
    exact ⟨p, hp, e, he, hsource, (h.idxOf_eq_iff (h.listed e he).2).mpr hq⟩

theorem Proper.mem_left (h : g.Proper) (hpq : g.Arrow p q) : p ∈ g.nodes := by
  obtain ⟨e, he, rfl, -⟩ := hpq
  exact (h.listed e he).1

theorem Proper.mem_right (h : g.Proper) (hpq : g.Arrow p q) : q ∈ g.nodes := by
  obtain ⟨e, he, -, rfl⟩ := hpq
  exact (h.listed e he).2

/-- **The closure of the matrix** says which nodes paths lead to. -/
theorem Proper.leads_closure_iff (h : g.Proper) (hp : g.nodes[i]? = some p)
    (hq : g.nodes[j]? = some q) :
    g.adjacency.closure.leads i j = true ↔ TransGen g.Arrow p q := by
  rw [Matrix.leads_closure_iff]
  constructor
  · intro hpath
    induction hpath generalizing q with
    | single hij =>
        obtain ⟨p', q', hp', hq', harrow⟩ := h.leads_adjacency_iff.mp hij
        rw [hp, Option.some.injEq] at hp'
        rw [hq, Option.some.injEq] at hq'
        subst hp' hq'
        exact .single harrow
    | tail _ hkj ih =>
        obtain ⟨r, q', hr, hq', harrow⟩ := h.leads_adjacency_iff.mp hkj
        rw [hq, Option.some.injEq] at hq'
        subst hq'
        exact .tail (ih hr) harrow
  · intro hpath
    induction hpath generalizing j with
    | single harrow => exact .single (h.leads_adjacency_iff.mpr ⟨p, _, hp, hq, harrow⟩)
    | @tail r q _ harrow ih =>
        obtain ⟨k, hk⟩ := List.mem_iff_getElem?.mp (h.mem_left harrow)
        exact .tail (ih hk) (h.leads_adjacency_iff.mpr ⟨r, q, hk, hq, harrow⟩)

/-- The closure leads from a node to all that it reaches in a step or more. -/
theorem Proper.leads_idxOf_iff (h : g.Proper) (hp : p ∈ g.nodes) (hq : q ∈ g.nodes) :
    g.adjacency.closure.leads (g.nodes.idxOf p) (g.nodes.idxOf q) = true ↔ TransGen g.Arrow p q :=
  h.leads_closure_iff (List.getElem?_idxOf hp) (List.getElem?_idxOf hq)

/-- A node reaches itself and what the closure leads it to. -/
theorem Proper.reflTransGen_iff (h : g.Proper) (hp : p ∈ g.nodes) (hq : q ∈ g.nodes) :
    ReflTransGen g.Arrow p q ↔
      q = p ∨ g.adjacency.closure.leads (g.nodes.idxOf p) (g.nodes.idxOf q) = true := by
  rw [Relation.reflTransGen_iff_eq_or_transGen, h.leads_idxOf_iff hp hq]

end

end SchemaCatalog.Graph
