import SchemaCatalog.Graph.Basic

/-!
# SchemaCatalog.Graph.Dot

The DOT text of a declaration graph: a box per node, labelled with its kind and name and coloured by
its kind, an arrow per edge, dashed for references. A node that the arena does not hold is labelled
with its id.
-/

namespace SchemaCatalog.Graph

/-- The colour of a node that stands for nothing in particular. -/
def plainColour : String := "#9E9E9E"

def colour : Kind → String
  | .schema => "#607D8B"
  | .complexType => "#00BCD4"
  | .simpleType => "#4CAF50"
  | .element => "#FF9800"
  | .group | .attrGroup => "#9C27B0"
  | .attr => "#2196F3"
  | .inclusion | .importation => "#F44336"
  | .remark | .other _ => plainColour

/-- The label of a declaration: its kind, and its name if it has one. -/
def label (d : Declaration) : String :=
  match d.name with
  | some name => s!"{d.kind} {name}"
  | none => d.kind.tag

/-- Writes a backslash before each quote of a text. -/
def quoted (text : String) : String :=
  String.ofList (text.toList.flatMap fun c => if c = '"' then ['\\', '"'] else [c])

def nodeLine (arena : Arena) (id : NodeId) : String :=
  let (text, fill) := match arena.get? id with
    | some d => (label d, colour d.kind)
    | none => (toString id, plainColour)
  s!"  n{id.index} [label=\"{quoted text}\", fillcolor=\"{fill}\"];\n"

def edgeLine (e : Edge) : String :=
  let style := match e.kind with
    | .contains => ""
    | .references => " [style=dashed]"
  s!"  n{e.source.index} -> n{e.target.index}{style};\n"

def header : String :=
  "digraph DeclarationGraph \x7b\n" ++
    "  rankdir=LR;\n" ++
    "  node [shape=box, style=\"filled,rounded\", fontname=\"Helvetica\", fontsize=10];\n" ++
    "  edge [fontname=\"Helvetica\", fontsize=8];\n"

/-- The DOT text of a graph over the declarations of an arena. -/
def dot (g : Graph) (arena : Arena) : String :=
  header ++ "\n" ++ String.join (g.nodes.map (nodeLine arena)) ++ "\n" ++
    String.join (g.edges.map edgeLine) ++ "\x7d\n"

end SchemaCatalog.Graph
