import SchemaCatalog.Error

/-!
# SchemaCatalog.Declaration.Arena

The owner of all declarations of a session. Declarations are only ever added, so an id stays valid;
edges may form shared subtrees and cycles.
-/

namespace SchemaCatalog

/-- All declarations of a session, at the places that their ids name. -/
structure Arena where
  nodes : Array Declaration := #[]
  deriving DecidableEq, Inhabited

namespace Arena

def empty : Arena := {}

instance : EmptyCollection Arena := ⟨empty⟩

def size (a : Arena) : Nat := a.nodes.size

def get? (a : Arena) (id : NodeId) : Option Declaration := a.nodes[id.index]?

def get (a : Arena) (id : NodeId) : Except Error Declaration :=
  match a.get? id with
  | some d => .ok d
  | none => .error (.unknownNode id)

def children (a : Arena) (id : NodeId) : Except Error (List NodeId) :=
  match a.get? id with
  | some d => .ok d.children
  | none => .error (.unknownNode id)

/-- Has a walk accepted this declaration? An unknown id counts as not processed. -/
def isProcessed (a : Arena) (id : NodeId) : Bool :=
  (a.get? id).any (·.processed)

/-- Adds a detached declaration; its id is the next free place. -/
def alloc (a : Arena) (d : Declaration) : NodeId × Arena :=
  (⟨a.size⟩, ⟨a.nodes.push d⟩)

/-- Changes one declaration; nothing happens for an unknown id. -/
def modify (a : Arena) (id : NodeId) (f : Declaration → Declaration) : Arena :=
  ⟨a.nodes.modify id.index f⟩

/-- Appends an edge without asking whether its ends exist. -/
def link (a : Arena) (parent child : NodeId) : Arena :=
  a.modify parent fun d => { d with children := d.children ++ [child] }

def markProcessed (a : Arena) (id : NodeId) : Arena :=
  a.modify id fun d => { d with processed := true }

/-- Adds a declaration below an existing one, behind its other children. -/
def allocChild (a : Arena) (parent : NodeId) (d : Declaration) : Except Error (NodeId × Arena) :=
  match a.get? parent with
  | none => .error (.unknownNode parent)
  | some _ =>
    let (id, a) := a.alloc d
    .ok (id, a.link parent id)

/-- Appends an edge between existing declarations; a missing child is reported first. -/
def addChild (a : Arena) (parent child : NodeId) : Except Error Arena :=
  match a.get? child, a.get? parent with
  | none, _ => .error (.unknownNode child)
  | some _, none => .error (.unknownNode parent)
  | some _, some _ => .ok (a.link parent child)

/-- The number of declarations that no walk has accepted yet. -/
def pending (a : Arena) : Nat := a.nodes.countP (! ·.processed)

/-! ## Look-ups after each operation -/

theorem get?_alloc (a : Arena) (d : Declaration) (id : NodeId) :
    (a.alloc d).2.get? id = if id.index = a.size then some d else a.get? id := by
  simp only [get?, alloc, size, Array.getElem?_push]
  rfl

theorem get?_modify (a : Arena) (id q : NodeId) (f : Declaration → Declaration) :
    (a.modify id f).get? q = if q = id then (a.get? q).map f else a.get? q := by
  have hq : q = id ↔ q.index = id.index := by cases q; cases id; simp
  simp only [get?, modify, Array.getElem?_modify, hq, eq_comm]

@[simp] theorem size_modify (a : Arena) (id : NodeId) (f : Declaration → Declaration) :
    (a.modify id f).size = a.size := by
  simp [size, modify]

theorem get?_eq_some_lt {a : Arena} {id : NodeId} {d : Declaration} (h : a.get? id = some d) :
    id.index < a.size := by
  obtain ⟨h, _⟩ := Array.getElem?_eq_some_iff.1 h
  exact h

/-- Setting a flag that was clear leaves one declaration fewer to process. -/
theorem pending_markProcessed_lt {a : Arena} {id : NodeId} {d : Declaration}
    (h : a.get? id = some d) (hp : d.processed = false) :
    (a.markProcessed id).pending < a.pending := by
  obtain ⟨hlt, rfl⟩ := Array.getElem?_eq_some_iff.1 h
  have key : ∀ (l : List Declaration) (i : Nat) (hi : i < l.length), l[i].processed = false →
      (l.modify i fun d => { d with processed := true }).countP (! ·.processed) <
        l.countP (! ·.processed) := by
    intro l
    induction l with
    | nil => intro i hi; simp at hi
    | cons x xs ih =>
      intro i hi hx
      cases i with
      | zero =>
        simp only [List.getElem_cons_zero] at hx
        simp [hx]
      | succ i =>
        have := ih i (by simpa using hi) (by simpa using hx)
        simp only [List.modify_succ_cons, List.countP_cons]
        omega
  have := key a.nodes.toList id.index (by simpa using hlt) (by simpa using hp)
  simpa [pending, markProcessed, modify, ← Array.countP_toList] using this

end Arena

end SchemaCatalog
