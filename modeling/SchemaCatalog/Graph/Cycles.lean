import SchemaCatalog.Graph.Basic

/-!
# SchemaCatalog.Graph.Cycles

The recursive groups of a declaration graph: the largest sets of nodes in which each leads to each,
itself included, by at least one edge.

Which node leads to which is computed by Warshall's method. Row `i` of a matrix is a number whose
bit `j` says that node `i` leads to node `j`; step `k` lets paths go through node `k`.
-/

namespace SchemaCatalog.Graph

/-- Bit rows: bit `j` of row `i` says that node `i` leads to node `j`. -/
abbrev Matrix := Array Nat

namespace Matrix

/-- Does node `i` lead to node `j`? -/
def leads (m : Matrix) (i j : Nat) : Bool := (m.getD i 0).testBit j

/-- Lets paths go through node `k`. -/
def through (m : Matrix) (k : Nat) : Matrix :=
  let onward := m.getD k 0
  m.map fun row => if row.testBit k then row ||| onward else row

/-- Lets paths go through all nodes. -/
def closure (m : Matrix) : Matrix := (List.range m.size).foldl through m

end Matrix

/-- The matrix of the single edges, by the places of the nodes in the graph. -/
def adjacency (g : Graph) : Matrix :=
  (g.nodes.map fun id =>
    (g.edges.filter (·.source = id)).foldl (fun row e => row ||| 1 <<< g.nodes.idxOf e.target)
      0).toArray

/-- The nodes by id, each with its place in the graph. -/
def placed (g : Graph) : List (NodeId × Nat) :=
  g.nodes.zipIdx.mergeSort fun v w => v.1.index ≤ w.1.index

/-- The largest sets of nodes in which each leads to each by at least one edge. Members are listed
by id, and so are the groups, by their first members. -/
def recursiveGroups (g : Graph) : List (List NodeId) :=
  let reach := g.adjacency.closure
  let nodes := g.placed
  nodes.filterMap fun (v, i) =>
    let group := (nodes.filter fun (_, j) => reach.leads i j && reach.leads j i).map (·.1)
    if group.head? = some v then some group else none

end SchemaCatalog.Graph
