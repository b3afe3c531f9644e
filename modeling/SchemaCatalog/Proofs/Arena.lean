import Mathlib.Logic.Relation
import SchemaCatalog.Declaration.Arena

/-!
# SchemaCatalog.Proofs.Arena

Arenas as graphs. An id is *valid* if it names a declaration, and an arena is
*closed* if all children are valid.  Walks change an arena in its flags only:
`get?_markAll` says what is left of a declaration after any number of marks,
and `edge_markAll` that the graph stays the same.  `Extends` is the opposite
kind of change, where declarations are added and none is touched.  `Keeps`
covers both, and new edges too: whatever a session does to its arena while it
is being built leaves the declarations with all that they had.
-/

namespace SchemaCatalog

/-- The declaration `e` is `d`, perhaps with more children or flagged. -/
structure Declaration.Continues (e d : Declaration) : Prop where
  kind : e.kind = d.kind
  name : e.name = d.name
  space : e.space = d.space
  attributes : e.attributes = d.attributes
  children : d.children ⊆ e.children

theorem Declaration.Continues.refl (d : Declaration) : d.Continues d :=
  ⟨rfl, rfl, rfl, rfl, List.Subset.refl _⟩

/-- Growth of a declaration composes. -/
theorem Declaration.Continues.trans {d e f : Declaration} (hfe : f.Continues e)
    (hed : e.Continues d) : f.Continues d where
  kind := hfe.kind.trans hed.kind
  name := hfe.name.trans hed.name
  space := hfe.space.trans hed.space
  attributes := hfe.attributes.trans hed.attributes
  children := List.Subset.trans hed.children hfe.children

namespace Arena

/-! ## valid ids, edges, closed arenas -/

/-- `id` names a declaration of `a`. -/
def Valid (a : Arena) (id : NodeId) : Prop := id.index < a.size

instance (a : Arena) (id : NodeId) : Decidable (a.Valid id) :=
  inferInstanceAs (Decidable (id.index < a.size))

/-- `child` is listed among the children of `parent`. -/
def Edge (a : Arena) (parent child : NodeId) : Prop :=
  ∃ d, a.get? parent = some d ∧ child ∈ d.children

/-- An edge to a declaration that is not flagged. -/
def FreshEdge (a : Arena) (parent child : NodeId) : Prop :=
  a.Edge parent child ∧ a.isProcessed child = false

/-- All children exist. -/
def Closed (a : Arena) : Prop :=
  ∀ d ∈ a.nodes.toList, ∀ c ∈ d.children, a.Valid c

instance (a : Arena) : Decidable a.Closed :=
  inferInstanceAs (Decidable (∀ d ∈ a.nodes.toList, ∀ c ∈ d.children, a.Valid c))

def Unprocessed (a : Arena) : Prop :=
  ∀ d ∈ a.nodes.toList, d.processed = false

instance (a : Arena) : Decidable a.Unprocessed :=
  inferInstanceAs (Decidable (∀ d ∈ a.nodes.toList, d.processed = false))

/-- The valid ids are those that name a declaration. -/
theorem valid_iff {a : Arena} {id : NodeId} : a.Valid id ↔ ∃ d, a.get? id = some d := by
  constructor
  · intro h
    exact ⟨_, Array.getElem?_eq_getElem h⟩
  · rintro ⟨d, hd⟩
    exact get?_eq_some_lt hd

theorem get?_eq_none_iff {a : Arena} {id : NodeId} : a.get? id = none ↔ ¬ a.Valid id := by
  rw [valid_iff, Option.eq_none_iff_forall_ne_some]
  simp

theorem mem_nodes {a : Arena} {id : NodeId} {d : Declaration} (h : a.get? id = some d) :
    d ∈ a.nodes.toList :=
  Array.mem_toList_iff.mpr (Array.mem_of_getElem? h)

/-- Each declaration of the arena is found under some id. -/
theorem exists_get?_of_mem_nodes {a : Arena} {d : Declaration} (h : d ∈ a.nodes.toList) :
    ∃ id, a.get? id = some d := by
  obtain ⟨i, hi, rfl⟩ := List.getElem_of_mem h
  exact ⟨⟨i⟩, by rw [get?, ← Array.getElem?_toList, List.getElem?_eq_getElem hi]⟩

theorem Edge.valid_left {a : Arena} {p c : NodeId} (h : a.Edge p c) : a.Valid p := by
  obtain ⟨d, hd, -⟩ := h
  exact valid_iff.mpr ⟨d, hd⟩

/-- In a closed arena an edge leads to a declaration. -/
theorem Edge.valid_right {a : Arena} {p c : NodeId} (h : a.Edge p c) (hclosed : a.Closed) :
    a.Valid c := by
  obtain ⟨d, hd, hc⟩ := h
  exact hclosed d (mem_nodes hd) c hc

theorem isProcessed_of_get? {a : Arena} {id : NodeId} {d : Declaration}
    (h : a.get? id = some d) : a.isProcessed id = d.processed := by
  simp [isProcessed, h]

/-- In an arena without flags no id reads as processed. -/
theorem isProcessed_of_unprocessed {a : Arena} (h : a.Unprocessed) (id : NodeId) :
    a.isProcessed id = false := by
  cases hd : a.get? id with
  | none => simp [isProcessed, hd]
  | some d =>
      rw [isProcessed_of_get? hd]
      exact h d (mem_nodes hd)

/-! ## setting flags -/

def markAll (a : Arena) (ids : List NodeId) : Arena := ids.foldl markProcessed a

@[simp] theorem markAll_nil (a : Arena) : a.markAll [] = a := rfl

@[simp] theorem markAll_cons (a : Arena) (id : NodeId) (ids : List NodeId) :
    a.markAll (id :: ids) = (a.markProcessed id).markAll ids := rfl

theorem markAll_append (a : Arena) (ids more : List NodeId) :
    a.markAll (ids ++ more) = (a.markAll ids).markAll more := by
  simp [markAll]

/-- Marking changes flags and nothing else. -/
theorem get?_markAll (a : Arena) (ids : List NodeId) (q : NodeId) :
    (a.markAll ids).get? q =
      (a.get? q).map fun d => { d with processed := d.processed || decide (q ∈ ids) } := by
  induction ids generalizing a with
  | nil => simp
  | cons id ids ih =>
      rw [markAll_cons, ih, markProcessed, get?_modify]
      by_cases hq : q = id
      · rw [if_pos hq, Option.map_map]
        simp [hq, Function.comp_def]
      · rw [if_neg hq]
        simp [hq]

/-- Flagging a node changes the flag of that node only. -/
theorem get?_markProcessed (a : Arena) (id q : NodeId) :
    (a.markProcessed id).get? q =
      (a.get? q).map fun d => { d with processed := d.processed || decide (q = id) } := by
  have h := get?_markAll a [id] q
  simpa using h

@[simp] theorem size_markAll (a : Arena) (ids : List NodeId) : (a.markAll ids).size = a.size := by
  induction ids generalizing a with
  | nil => rfl
  | cons id ids ih => rw [markAll_cons, ih, markProcessed, size_modify]

/-- Flagging adds no declaration and removes none. -/
@[simp] theorem valid_markAll (a : Arena) (ids : List NodeId) (id : NodeId) :
    (a.markAll ids).Valid id ↔ a.Valid id := by
  rw [Valid, Valid, size_markAll]

/-- Marks leave the graph as it is. -/
@[simp] theorem edge_markAll (a : Arena) (ids : List NodeId) :
    (a.markAll ids).Edge = a.Edge := by
  funext p c
  cases h : a.get? p with
  | none => simp [Edge, get?_markAll, h]
  | some d => simp [Edge, get?_markAll, h]

@[simp] theorem edge_markProcessed (a : Arena) (id : NodeId) :
    (a.markProcessed id).Edge = a.Edge := edge_markAll a [id]

@[simp] theorem valid_markProcessed (a : Arena) (id q : NodeId) :
    (a.markProcessed id).Valid q ↔ a.Valid q := valid_markAll a [id] q

/-- A flag is set after some marks if it was set before or one of the marks set it. -/
theorem isProcessed_markAll (a : Arena) (ids : List NodeId) (q : NodeId) :
    (a.markAll ids).isProcessed q = true ↔ a.isProcessed q = true ∨ a.Valid q ∧ q ∈ ids := by
  rw [valid_iff]
  cases h : a.get? q with
  | none => simp [isProcessed, get?_markAll, h]
  | some d => simp [isProcessed, get?_markAll, h]

/-- After a flag is set, the flagged ids are those of before and the one set. -/
theorem isProcessed_markProcessed (a : Arena) (id q : NodeId) :
    (a.markProcessed id).isProcessed q = true ↔ a.isProcessed q = true ∨ a.Valid q ∧ q = id := by
  have h := isProcessed_markAll a [id] q
  simpa using h

/-- Marks leave fewer declarations that are not flagged. -/
theorem FreshEdge.of_markProcessed {a : Arena} {id p c : NodeId}
    (h : (a.markProcessed id).FreshEdge p c) : a.FreshEdge p c := by
  obtain ⟨hedge, hfresh⟩ := h
  rw [edge_markProcessed] at hedge
  refine ⟨hedge, ?_⟩
  rw [← Bool.not_eq_true, isProcessed_markProcessed, not_or, Bool.not_eq_true] at hfresh
  exact hfresh.1

/-- An arena is closed when each of its edges leads to a declaration. -/
theorem closed_iff {a : Arena} : a.Closed ↔ ∀ p c, a.Edge p c → a.Valid c := by
  constructor
  · intro h p c hpc
    exact hpc.valid_right h
  · intro h d hd c hc
    obtain ⟨p, hp⟩ := exists_get?_of_mem_nodes hd
    exact h p c ⟨d, hp, hc⟩

/-- Marks do not open a closed arena. -/
theorem closed_markAll {a : Arena} (h : a.Closed) (ids : List NodeId) :
    (a.markAll ids).Closed := by
  rw [closed_iff] at h ⊢
  intro p c hpc
  rw [edge_markAll] at hpc
  rw [valid_markAll]
  exact h p c hpc

/-! ## change in children and flags -/

/-- `b` has all declarations of `a`, with all their children. Some may have got
more children or have been flagged, and there may be more declarations. -/
def Keeps (b a : Arena) : Prop :=
  ∀ id d, a.get? id = some d → ∃ e, b.get? id = some e ∧ e.Continues d

/-- Keeping what is there composes. -/
theorem Keeps.trans {a b c : Arena} (hcb : c.Keeps b) (hba : b.Keeps a) : c.Keeps a := by
  intro id d hd
  obtain ⟨e, he, hed⟩ := hba id d hd
  obtain ⟨f, hf, hfe⟩ := hcb id e he
  exact ⟨f, hf, hfe.trans hed⟩

/-- A grown arena has the edges it had. -/
theorem Keeps.edge {a b : Arena} (h : b.Keeps a) {p c : NodeId} (hpc : a.Edge p c) : b.Edge p c := by
  obtain ⟨d, hd, hc⟩ := hpc
  obtain ⟨e, he, hed⟩ := h p d hd
  exact ⟨e, he, hed.children hc⟩

/-- An id that is valid stays valid as the arena grows. -/
theorem Keeps.valid {a b : Arena} (h : b.Keeps a) {id : NodeId} (hid : a.Valid id) :
    b.Valid id := by
  obtain ⟨d, hd⟩ := valid_iff.mp hid
  obtain ⟨e, he, -⟩ := h id d hd
  exact valid_iff.mpr ⟨e, he⟩

theorem Keeps.size_le {a b : Arena} (h : b.Keeps a) : a.size ≤ b.size := by
  refine Nat.le_of_not_lt fun hlt => ?_
  have hvalid : a.Valid ⟨b.size⟩ := hlt
  exact absurd (h.valid hvalid) (Nat.lt_irrefl b.size)

/-- Setting flags keeps what is there. -/
theorem keeps_markAll (a : Arena) (ids : List NodeId) : (a.markAll ids).Keeps a := by
  intro id d hd
  rw [get?_markAll, hd]
  exact ⟨_, rfl, rfl, rfl, rfl, rfl, List.Subset.refl _⟩

/-- A new edge keeps what is there. -/
theorem keeps_link (a : Arena) (parent child : NodeId) : (a.link parent child).Keeps a := by
  intro id d hd
  rw [link, get?_modify, hd]
  by_cases hid : id = parent
  · rw [if_pos hid]
    exact ⟨_, rfl, rfl, rfl, rfl, rfl, List.subset_append_left _ _⟩
  · rw [if_neg hid]
    exact ⟨d, rfl, .refl d⟩

/-! ## growth -/

/-- `b` holds the declarations of `a` unchanged, and perhaps more. -/
def Extends (b a : Arena) : Prop := ∀ id d, a.get? id = some d → b.get? id = some d

theorem Extends.refl (a : Arena) : a.Extends a := fun _ _ h => h

theorem Extends.trans {a b c : Arena} (hcb : c.Extends b) (hba : b.Extends a) : c.Extends a :=
  fun id d h => hcb id d (hba id d h)

/-- An arena that only gained declarations keeps what was there. -/
theorem Extends.keeps {a b : Arena} (h : b.Extends a) : b.Keeps a :=
  fun id d hd => ⟨d, h id d hd, .refl d⟩

theorem Extends.valid {a b : Arena} (h : b.Extends a) {id : NodeId} (hid : a.Valid id) :
    b.Valid id :=
  h.keeps.valid hid

/-- Declarations that were there keep their edges. -/
theorem Extends.edge_iff {a b : Arena} (h : b.Extends a) {p c : NodeId} (hp : a.Valid p) :
    b.Edge p c ↔ a.Edge p c := by
  obtain ⟨d, hd⟩ := valid_iff.mp hp
  simp only [Edge, hd, h p d hd]

theorem Extends.edge {a b : Arena} (h : b.Extends a) {p c : NodeId} (hpc : a.Edge p c) :
    b.Edge p c :=
  (h.edge_iff hpc.valid_left).mpr hpc

theorem Extends.size_le {a b : Arena} (h : b.Extends a) : a.size ≤ b.size := h.keeps.size_le

@[simp] theorem size_alloc (a : Arena) (d : Declaration) : (a.alloc d).2.size = a.size + 1 :=
  Array.size_push d

/-- Adding a declaration is growth. -/
theorem extends_alloc (a : Arena) (d : Declaration) : (a.alloc d).2.Extends a := by
  intro id e he
  have hlt : id.index < a.size := get?_eq_some_lt he
  rw [get?_alloc, if_neg (by omega)]
  exact he

/-- A new child keeps what is there. -/
theorem keeps_allocChild {a b : Arena} {parent id : NodeId} {d : Declaration}
    (h : a.allocChild parent d = .ok (id, b)) : b.Keeps a := by
  rw [allocChild] at h
  split at h
  · contradiction
  · simp only [Except.ok.injEq, Prod.mk.injEq] at h
    rw [← h.2]
    exact (keeps_link _ parent _).trans (extends_alloc a d).keeps

/-- A checked new edge keeps what is there. -/
theorem keeps_addChild {a b : Arena} {parent child : NodeId}
    (h : a.addChild parent child = .ok b) : b.Keeps a := by
  rw [addChild] at h
  split at h
  · contradiction
  · contradiction
  · rw [← Except.ok.inj h]
    exact keeps_link a parent child

/-- `b` is `a` with declarations appended that are not flagged and have their
children among themselves. -/
structure Annexed (a b : Arena) : Prop where
  grown : b.Extends a
  fresh : ∀ id d, ¬ a.Valid id → b.get? id = some d → d.processed = false
  inner : ∀ p c, ¬ a.Valid p → b.Edge p c → ¬ a.Valid c ∧ b.Valid c

theorem Annexed.refl (a : Arena) : Annexed a a where
  grown := .refl a
  fresh := fun _ d hid hd => absurd (valid_iff.mpr ⟨d, hd⟩) hid
  inner := fun _ _ hp hpc => absurd hpc.valid_left hp

/-- What is annexed to a closed arena leaves it closed. -/
theorem Annexed.closed {a b : Arena} (h : Annexed a b) (hclosed : a.Closed) : b.Closed := by
  rw [closed_iff] at hclosed ⊢
  intro p c hpc
  by_cases hp : a.Valid p
  · exact h.grown.valid (hclosed p c ((h.grown.edge_iff hp).mp hpc))
  · exact (h.inner p c hp hpc).2

/-- What is annexed brings no flag. -/
theorem Annexed.unprocessed {a b : Arena} (h : Annexed a b) (hfresh : a.Unprocessed) :
    b.Unprocessed := by
  intro e he
  obtain ⟨id, hid⟩ := exists_get?_of_mem_nodes he
  by_cases hvalid : a.Valid id
  · obtain ⟨d, hd⟩ := valid_iff.mp hvalid
    obtain rfl : d = e := Option.some.inj ((h.grown id d hd).symm.trans hid)
    exact hfresh d (mem_nodes hd)
  · exact h.fresh id e hvalid hid

/-- Appending childless declarations that are not flagged. -/
theorem annexed_of_append {a b : Arena} {ds : List Declaration}
    (h : b.nodes.toList = a.nodes.toList ++ ds)
    (hds : ∀ d ∈ ds, d.processed = false ∧ d.children = []) : Annexed a b := by
  have hget : ∀ id, b.get? id = (a.nodes.toList ++ ds)[id.index]? := by
    intro id
    rw [get?, ← Array.getElem?_toList, h]
  have hnew : ∀ id d, ¬ a.Valid id → b.get? id = some d → d ∈ ds := by
    intro id d hid hd
    rw [hget, List.getElem?_append_right (Nat.le_of_not_lt hid)] at hd
    exact List.mem_of_getElem? hd
  constructor
  · intro id d hd
    have hlt : id.index < a.nodes.toList.length := get?_eq_some_lt hd
    rw [hget, List.getElem?_append_left hlt, Array.getElem?_toList]
    exact hd
  · intro id d hid hd
    exact (hds d (hnew id d hid hd)).1
  · rintro p c hp ⟨d, hd, hc⟩
    rw [(hds d (hnew p d hp hd)).2] at hc
    contradiction

/-! ## looking up several ids -/

/-- Ids with the declarations they name; ids that name none are left out. -/
def look (a : Arena) (ids : List NodeId) : List (NodeId × Declaration) :=
  ids.filterMap fun id => (a.get? id).map fun d => (id, d)

theorem look_cons_some {a : Arena} {id : NodeId} {d : Declaration} (h : a.get? id = some d)
    (ids : List NodeId) : a.look (id :: ids) = (id, d) :: a.look ids := by
  simp [look, h]

theorem look_append (a : Arena) (ids more : List NodeId) :
    a.look (ids ++ more) = a.look ids ++ a.look more := by
  simp [look]

/-- Looking up a list of ids finds the pairs of a listed id with its declaration. -/
theorem mem_look {a : Arena} {ids : List NodeId} {p : NodeId × Declaration} :
    p ∈ a.look ids ↔ p.1 ∈ ids ∧ a.get? p.1 = some p.2 := by
  obtain ⟨id, d⟩ := p
  simp only [look, List.mem_filterMap, Option.map_eq_some_iff, Prod.mk.injEq]
  constructor
  · rintro ⟨q, hq, e, he, rfl, rfl⟩
    exact ⟨hq, he⟩
  · rintro ⟨hid, hd⟩
    exact ⟨id, hid, d, hd, rfl, rfl⟩

/-- Growth changes nothing about ids that are valid already. -/
theorem Extends.look {a b : Arena} (h : b.Extends a) {ids : List NodeId}
    (hids : ∀ id ∈ ids, a.Valid id) : b.look ids = a.look ids := by
  induction ids with
  | nil => rfl
  | cons id ids ih =>
      obtain ⟨⟨d, hd⟩, hrest⟩ := List.forall_mem_cons.mp (by simpa only [valid_iff] using hids)
      rw [look_cons_some hd, look_cons_some (h id d hd), ih fun q hq => valid_iff.mpr (hrest q hq)]

end Arena

end SchemaCatalog
