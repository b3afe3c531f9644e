import SchemaCatalog.Session

/-!
# SchemaCatalog.Graph.Basic

The declaration graph of a session: everything reachable from the registries' roots, found breadth
first, with an edge for each child and, if a resolver is given, for each reference that leads to a
declaration.

The search ends on every arena: a step either discovers a declaration of the arena or takes one off
the queue.
-/

namespace SchemaCatalog

/-- Why one node leads to another. -/
inductive EdgeKind
  /-- The target is a child of the source. -/
  | contains
  /-- A reference on the source leads to the target. -/
  | references
  deriving DecidableEq, Repr

structure Edge where
  source : NodeId
  target : NodeId
  kind : EdgeKind
  deriving DecidableEq, Repr

/-- Declarations, each listed once in the order of discovery, and the edges between them. -/
structure Graph where
  nodes : List NodeId := []
  edges : List Edge := []
  deriving DecidableEq, Repr, Inhabited

namespace Graph

/-- Lists a node unless it is listed already. -/
def addNode (nodes : List NodeId) (id : NodeId) : List NodeId :=
  if id ∈ nodes then nodes else nodes ++ [id]

def addNodes (nodes : List NodeId) (ids : List NodeId) : List NodeId := ids.foldl addNode nodes

/-- The nodes of a list that are not among `known`, each once, in order. -/
def discover (known : List NodeId) : List NodeId → List NodeId
  | [] => []
  | id :: rest =>
    if id ∈ known then discover known rest else id :: discover (id :: known) rest

/-- The places of an arena that a graph does not list yet. -/
def unlisted (arena : Arena) (nodes : List NodeId) : Nat :=
  (List.range arena.size).countP fun i => ⟨i⟩ ∉ nodes

def existing (arena : Arena) (queue : List NodeId) : Nat :=
  queue.countP fun id => id.index < arena.size

theorem countP_lt_countP {α : Type} {p q : α → Bool} {l : List α} (h : ∀ x ∈ l, q x → p x)
    {a : α} (ha : a ∈ l) (hp : p a = true) (hq : q a = false) : l.countP q < l.countP p := by
  induction l with
  | nil => simp at ha
  | cons x xs ih =>
    have hxs := List.countP_mono_left (p := q) (q := p) fun y hy =>
      h y (List.mem_cons_of_mem x hy)
    rcases List.mem_cons.1 ha with rfl | ha
    · simp only [List.countP_cons, hp, hq]
      simp
      omega
    · have := ih (fun y hy => h y (List.mem_cons_of_mem x hy)) ha
      have hx := h x List.mem_cons_self
      simp only [List.countP_cons]
      by_cases hqx : q x = true
      · simp [hqx, hx hqx]; omega
      · simp [hqx]; split <;> omega

/-- What is discovered is new. -/
theorem not_mem_of_mem_discover {known : List NodeId} {ids : List NodeId} {id : NodeId}
    (h : id ∈ discover known ids) : id ∉ known := by
  induction ids generalizing known with
  | nil => simp [discover] at h
  | cons x xs ih =>
    unfold discover at h
    split at h
    · exact ih h
    · rcases List.mem_cons.1 h with rfl | h
      · assumption
      · exact fun hk => ih h (List.mem_cons_of_mem x hk)

/-- Discovering a declaration of the arena leaves fewer to discover; otherwise the queue gets
shorter. -/
theorem explore_decreases (arena : Arena) (nodes fresh queue : List NodeId) (id : NodeId)
    (hid : id.index < arena.size) (hfresh : ∀ x ∈ fresh, x ∉ nodes) :
    Prod.Lex (· < ·) (· < ·)
      (unlisted arena (nodes ++ fresh), existing arena (queue ++ fresh))
      (unlisted arena nodes, existing arena (id :: queue)) := by
  by_cases h : ∃ x ∈ fresh, x.index < arena.size
  · obtain ⟨x, hx, hlt⟩ := h
    refine Prod.Lex.left _ _ (countP_lt_countP (a := x.index) ?_ (List.mem_range.2 hlt) ?_ ?_)
    · intro i _ hi
      simp only [List.mem_append, not_or, decide_eq_true_eq] at hi ⊢
      exact hi.1
    · simpa using hfresh x hx
    · simp [hx]
  · have hno : ∀ x ∈ fresh, ¬ x.index < arena.size := fun x hx hlt => h ⟨x, hx, hlt⟩
    have h₁ : unlisted arena (nodes ++ fresh) = unlisted arena nodes := by
      refine List.countP_congr fun i hi => ?_
      have : (⟨i⟩ : NodeId) ∉ fresh := fun hm => hno _ hm (List.mem_range.1 hi)
      simp [this]
    have h₂ : existing arena fresh = 0 := by
      simpa [existing, List.countP_eq_zero] using hno
    rw [h₁]
    refine Prod.Lex.right _ ?_
    simp only [existing, List.countP_append, List.countP_cons, hid, decide_true, if_true] at h₂ ⊢
    omega

/-- Follows the containment edges from the nodes of a queue, breadth first. -/
def explore (arena : Arena) (g : Graph) : List NodeId → Except Error Graph
  | [] => .ok g
  | id :: queue =>
    match _known : arena.get? id with
    | none => .error (.unknownNode id)
    | some d =>
      let fresh := discover g.nodes d.children
      explore arena
        { nodes := g.nodes ++ fresh
          edges := g.edges ++ d.children.map fun c => ⟨id, c, .contains⟩ }
        (queue ++ fresh)
  termination_by queue => (unlisted arena g.nodes, existing arena queue)
  decreasing_by
    exact explore_decreases arena g.nodes _ queue id (Arena.get?_eq_some_lt _known) fun _ hx =>
      not_mem_of_mem_discover hx

/-- Adds an edge between two nodes, and the nodes if they are missing. -/
def addReference (g : Graph) (source target : NodeId) : Graph :=
  { nodes := addNode (addNode g.nodes source) target
    edges := g.edges ++ [⟨source, target, .references⟩] }

def addReferences (g : Graph) (r : Resolver) : Graph :=
  r.resolutions.foldl (fun g (site, found) => match found.node? with
    | some target => g.addReference site.node target
    | none => g) g

/-- The graph of everything reachable from the registries' roots, with reference edges if a resolver
is given. -/
def build (s : Session) (resolver : Option Resolver) : Except Error Graph :=
  let roots := s.registries.values.flatMap (·.roots)
  match explore s.arena { nodes := addNodes [] roots } roots with
  | .error e => .error e
  | .ok g => .ok (match resolver with
    | some r => g.addReferences r
    | none => g)

end Graph

end SchemaCatalog
