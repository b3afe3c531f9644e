import SchemaCatalog.Graph.Dot
import SchemaCatalog.Proofs.Graph.DotLabel
import SchemaCatalog.Proofs.Graph.Search

/-!
# SchemaCatalog.Proofs.Graph.Dot

The DOT text of a declaration graph, as it is read.  It is taken apart into
lines (`toList_dot`), each of which is one statement (`says_nodeTokens`,
`says_edgeTokens`).  If all labels end where they should, the text says what the
graph is (`read_dot`), and otherwise it says nothing (`read_dot_eq_none`).
-/

namespace SchemaCatalog

namespace Graph

open Dot

/-! ## lines -/

def caption (a : Arena) (id : NodeId) : String :=
  match a.get? id with
  | some d => label d
  | none => toString id

def fill (a : Arena) (id : NodeId) : String :=
  match a.get? id with
  | some d => colour d.kind
  | none => plainColour

def nodeName (id : NodeId) : String := "n" ++ toString id.index

theorem toList_quoted (text : String) : (quoted text).toList = escaped text.toList := by
  simp [quoted, escaped]

/-- The line of a node has its name, its caption in quotes and its fill colour. -/
theorem toList_nodeLine (a : Arena) (id : NodeId) :
    (nodeLine a id).toList = "  ".toList ++ (nodeName id).toList ++ " [label=".toList ++
      ('"' :: (escaped (caption a id).toList ++ ['"'])) ++ ", fillcolor=".toList ++
      ('"' :: ((fill a id).toList ++ ['"'])) ++ "];\n".toList := by
  rw [← toList_quoted]
  cases hget : a.get? id with
  | none => simp [nodeLine, nodeName, caption, fill, hget, toString]
  | some d => simp [nodeLine, nodeName, caption, fill, hget, toString]

def styleText : EdgeKind → String
  | .contains => ""
  | .references => " [style=dashed]"

/-- The line of an edge has both names and the style of the edge. -/
theorem toList_edgeLine (e : Edge) :
    (edgeLine e).toList = "  ".toList ++ (nodeName e.source).toList ++ " -> ".toList ++
      (nodeName e.target).toList ++ (styleText e.kind).toList ++ ";\n".toList := by
  cases hkind : e.kind with
  | contains => simp [edgeLine, nodeName, styleText, hkind, toString]
  | references => simp [edgeLine, nodeName, styleText, hkind, toString]

/-- The text is a header, a line for each node and a line for each edge. -/
theorem toList_dot (g : Graph) (a : Arena) :
    (g.dot a).toList = header.toList ++ "\n".toList ++
      g.nodes.flatMap (fun id => (nodeLine a id).toList) ++ "\n".toList ++
      g.edges.flatMap (fun e => (edgeLine e).toList) ++ "\x7d\n".toList := by
  simp [dot, List.flatMap_map]

/-! ## what the lines say -/

/-- Names of nodes are words. -/
theorem isWord_of_mem_nodeName {id : NodeId} {c : Char} (h : c ∈ (nodeName id).toList) :
    isWord c = true := by
  have hdigits : c = 'n' ∨ c ∈ Nat.toDigits 10 id.index := by
    simpa [nodeName] using h
  rcases hdigits with rfl | hdigit
  · decide
  · have hc := Nat.isDigit_of_mem_toDigits (by decide) (by decide) hdigit
    simp [isWord, Char.isAlphanum, hc]

/-- Two nodes never share a name. -/
theorem nodeName_injective {id q : NodeId} (h : nodeName id = nodeName q) : id = q := by
  have hdigits : Nat.toDigits 10 id.index = Nat.toDigits 10 q.index := by
    have hlist := congrArg String.toList h
    simpa [nodeName] using hlist
  have hindex := congrArg (Nat.ofDigitChars 10 · 0) hdigits
  simp only [Nat.ofDigitChars_ten_toDigits] at hindex
  cases id
  cases q
  exact congrArg NodeId.mk hindex

/-- No node is named like a kind: a digit stands second. -/
theorem nodeName_not_mem_kinds (id : NodeId) : nodeName id ∉ kinds := by
  have hdigits : (nodeName id).toList.tail.all (·.isDigit) = true := by
    refine List.all_eq_true.mpr fun c hc => ?_
    have hdigit : c ∈ Nat.toDigits 10 id.index := by simpa [nodeName] using hc
    exact Nat.isDigit_of_mem_toDigits (by decide) (by decide) hdigit
  intro h
  simp only [kinds, List.mem_cons, List.not_mem_nil, or_false] at h
  rcases h with h | h | h
  all_goals
    rw [h] at hdigits
    exact absurd hdigits (by decide)

/-- A name and what stands behind it. -/
theorem reads_nodeName (id : NodeId) {c : Char} {cs : List Char} {ts : List Token}
    (hcs : cs.head? = some c) (hc : isWord c = false) (h : Reads cs ts) :
    Reads ((nodeName id).toList ++ cs) (.word (nodeName id) :: ts) := by
  have hne : (nodeName id).toList ≠ [] := by simp [nodeName]
  have hreads := Reads.word hne (fun _ => isWord_of_mem_nodeName) hcs hc h
  rwa [String.ofList_toList] at hreads

/-- There is neither a quote nor a backslash in the text. -/
def Plain (cs : List Char) : Prop := ∀ c ∈ cs, c ≠ '"' ∧ c ≠ '\\'

instance (cs : List Char) : Decidable (Plain cs) := List.decidableBAll _ cs

/-- What stands in quotes without a quote or a backslash in it is read as it is. -/
theorem readQuoted_plain {cs : List Char} (h : Plain cs) (rest : List Char) :
    readQuoted (cs ++ '"' :: rest) = some (cs, rest) := by
  induction cs with
  | nil => rfl
  | cons c cs ih =>
      obtain ⟨⟨hquote, hslash⟩, hcs⟩ := List.forall_mem_cons.mp h
      rw [List.cons_append, readQuoted_cons (by simp [hquote, hslash]), ih hcs]
      rfl

/-- A colour needs no quoting. -/
theorem plain_fill (a : Arena) (id : NodeId) :
    Plain (fill a id).toList ∧ (fill a id).toList.head? = some '#' := by
  rw [fill]
  cases a.get? id with
  | none => decide
  | some d =>
      show Plain (colour d.kind).toList ∧ (colour d.kind).toList.head? = _
      cases d.kind <;> (simp only [colour, plainColour]; decide)

theorem reads_fill (a : Arena) (id : NodeId) :
    Reads ('"' :: ((fill a id).toList ++ ['"'])) [.quoted (fill a id)] := by
  have hreads := Reads.quoted (readQuoted_plain (plain_fill a id).1 [])
  rwa [String.ofList_toList] at hreads

/-- The tokens of a node's statement, the semicolon left out. -/
def nodeTokens (a : Arena) (id : NodeId) : List Token :=
  [.word (nodeName id), .mark '[', .word "label", .mark '=',
    .quoted (String.ofList (collapse (caption a id).toList)), .mark ',', .word "fillcolor",
    .mark '=', .quoted (fill a id), .mark ']']

theorem reads_indent : Reads "  ".toList [] := reads_of_lex (by decide +kernel) (by decide +kernel)

theorem reads_nodeName_label (id : NodeId) : Reads ((nodeName id).toList ++ " [label=".toList)
    [.word (nodeName id), .mark '[', .word "label", .mark '='] :=
  reads_nodeName id rfl (by decide) (reads_of_lex (by decide +kernel) (by decide +kernel))

/-- **The line of a node** is read if its label ends where it should. -/
theorem reads_nodeLine {a : Arena} {id : NodeId} (h : EvenRuns (caption a id).toList) :
    Reads (nodeLine a id).toList (nodeTokens a id ++ [.mark ';']) := by
  have hlabel : Reads ('"' :: (escaped (caption a id).toList ++ ['"']))
      [.quoted (String.ofList (collapse (caption a id).toList))] :=
    .quoted (readQuoted_escaped_iff.mpr ⟨h, rfl⟩)
  have hnext : Reads ", fillcolor=".toList [.mark ',', .word "fillcolor", .mark '='] :=
    reads_of_lex (by decide +kernel) (by decide +kernel)
  have hclose : Reads "];\n".toList [.mark ']', .mark ';'] :=
    reads_of_lex (by decide +kernel) (by decide +kernel)
  have hline := (((((reads_indent.append (reads_nodeName_label id)).append hlabel).append
    hnext).append (reads_fill a id)).append hclose)
  rwa [← List.append_assoc, ← toList_nodeLine] at hline

/-- Otherwise it is not, since the colour does not start like a token. -/
theorem lex_nodeLine_eq_none {a : Arena} {id : NodeId} (h : ¬ EvenRuns (caption a id).toList)
    (rest : List Char) : lex ((nodeLine a id).toList ++ rest) = none := by
  obtain ⟨hplain, hhead⟩ := plain_fill a id
  obtain ⟨digits, hdigits⟩ := List.head?_eq_some_iff.mp hhead
  have hafter : lex ('"' :: (", fillcolor=".toList ++
      '"' :: ((fill a id).toList ++ '"' :: ("];\n".toList ++ rest)))) = none := by
    rw [lex_quote_eq_none_iff, readQuoted_plain (by decide)]
    rintro text after heq
    obtain ⟨-, rfl⟩ := Prod.mk.inj (Option.some.inj heq)
    rw [hdigits]
    exact lex_eq_none (by decide) (by decide) (by decide) (by decide) (by decide) _
  have hlabel := lex_label_eq_none hafter h
  have hline := (reads_indent.append (reads_nodeName_label id)) ('"' ::
    (escaped (caption a id).toList ++ '"' :: (", fillcolor=".toList ++
      '"' :: ((fill a id).toList ++ '"' :: ("];\n".toList ++ rest)))))
  rw [hlabel, Option.map_none] at hline
  rw [toList_nodeLine]
  simpa only [List.append_assoc, List.cons_append, List.nil_append] using hline

/-- One such line among those of all nodes is enough. -/
theorem lex_nodeLines_eq_none {a : Arena} {ids : List NodeId}
    (h : ∃ id ∈ ids, ¬ EvenRuns (caption a id).toList) (rest : List Char) :
    lex (ids.flatMap (fun id => (nodeLine a id).toList) ++ rest) = none := by
  induction ids with
  | nil => simp at h
  | cons id ids ih =>
      rw [List.flatMap_cons, List.append_assoc]
      by_cases heven : EvenRuns (caption a id).toList
      · obtain ⟨q, hq, hodd⟩ := h
        have hq' : q ∈ ids := by
          rcases List.mem_cons.mp hq with rfl | hq
          · exact absurd heven hodd
          · exact hq
        rw [reads_nodeLine heven, ih ⟨q, hq', hodd⟩]
        rfl
      · exact lex_nodeLine_eq_none heven _

/-- What the statement for a node says, if its label can be read. -/
def nodeStatement (a : Arena) (id : NodeId) : Statement :=
  .node (nodeName id) [("label", String.ofList (collapse (caption a id).toList)),
    ("fillcolor", fill a id)]

theorem says_nodeTokens (a : Arena) (id : NodeId) :
    Says (nodeTokens a id ++ [.mark ';']) (nodeStatement a id) := by
  refine ⟨nodeTokens a id, rfl, ?_, ?_⟩
  · simp [nodeTokens, Token.Inner]
  · simp [nodeTokens, statement?, trailing?, attributes?, Token.text?, nodeStatement,
      nodeName_not_mem_kinds]

def styleTokens : EdgeKind → List Token
  | .contains => []
  | .references => [.mark '[', .word "style", .mark '=', .word "dashed", .mark ']']

def edgeTokens (e : Edge) : List Token :=
  [.word (nodeName e.source), .arrow, .word (nodeName e.target)] ++ styleTokens e.kind

/-- The line of an edge reads as its tokens. -/
theorem reads_edgeLine (e : Edge) : Reads (edgeLine e).toList (edgeTokens e ++ [.mark ';']) := by
  have hsource : Reads ((nodeName e.source).toList ++ " -> ".toList)
      [.word (nodeName e.source), .arrow] :=
    reads_nodeName e.source rfl (by decide) (reads_of_lex (by decide +kernel) (by decide +kernel))
  have htarget : Reads ((nodeName e.target).toList ++ ((styleText e.kind).toList ++ ";\n".toList))
      (.word (nodeName e.target) :: (styleTokens e.kind ++ [.mark ';'])) := by
    cases e.kind with
    | contains =>
        exact reads_nodeName e.target rfl (by decide)
          (reads_of_lex (by decide +kernel) (by decide +kernel))
    | references =>
        exact reads_nodeName e.target rfl (by decide)
          (reads_of_lex (by decide +kernel) (by decide +kernel))
  have hline := (reads_indent.append hsource).append htarget
  rw [toList_edgeLine]
  simpa only [edgeTokens, List.append_assoc, List.cons_append, List.nil_append] using hline

def edgeStatement (e : Edge) : Statement :=
  .edge (nodeName e.source) (nodeName e.target) <| match e.kind with
    | .contains => []
    | .references => [("style", "dashed")]

/-- The tokens of an edge make up its statement. -/
theorem says_edgeTokens (e : Edge) : Says (edgeTokens e ++ [.mark ';']) (edgeStatement e) := by
  refine ⟨edgeTokens e, rfl, ?_, ?_⟩
  · cases hkind : e.kind with
    | contains => simp [edgeTokens, styleTokens, hkind, Token.Inner]
    | references => simp [edgeTokens, styleTokens, hkind, Token.Inner]
  · cases hkind : e.kind with
    | contains => simp [edgeTokens, styleTokens, hkind, statement?, trailing?, edgeStatement]
    | references =>
        simp [edgeTokens, styleTokens, hkind, statement?, trailing?, attributes?, Token.text?,
          edgeStatement]

/-- What stands in front of the nodes. -/
def settings : List Statement :=
  [.setting "rankdir" "LR",
    .defaults "node" [("shape", "box"), ("style", "filled,rounded"), ("fontname", "Helvetica"),
      ("fontsize", "10")],
    .defaults "edge" [("fontname", "Helvetica"), ("fontsize", "8")]]

def settingsTokens : List Token :=
  [.word "rankdir", .mark '=', .word "LR", .mark ';',
    .word "node", .mark '[', .word "shape", .mark '=', .word "box", .mark ',',
    .word "style", .mark '=', .quoted "filled,rounded", .mark ',',
    .word "fontname", .mark '=', .quoted "Helvetica", .mark ',',
    .word "fontsize", .mark '=', .word "10", .mark ']', .mark ';',
    .word "edge", .mark '[', .word "fontname", .mark '=', .quoted "Helvetica", .mark ',',
    .word "fontsize", .mark '=', .word "8", .mark ']', .mark ';']

/-- The header reads as the opening of the graph and its settings. -/
theorem reads_header : Reads header.toList
    ([.word "digraph", .word "DeclarationGraph", .mark '{'] ++ settingsTokens) := by
  have hopen : Reads "digraph DeclarationGraph \x7b\n".toList
      [.word "digraph", .word "DeclarationGraph", .mark '{'] :=
    reads_of_lex (by decide +kernel) (by decide +kernel)
  have hdirection : Reads "  rankdir=LR;\n".toList
      [.word "rankdir", .mark '=', .word "LR", .mark ';'] :=
    reads_of_lex (by decide +kernel) (by decide +kernel)
  have hnodes : Reads ("  node [shape=box, style=\"filled,rounded\", fontname=\"Helvetica\", " ++
        "fontsize=10];\n").toList
      [.word "node", .mark '[', .word "shape", .mark '=', .word "box", .mark ',',
        .word "style", .mark '=', .quoted "filled,rounded", .mark ',',
        .word "fontname", .mark '=', .quoted "Helvetica", .mark ',',
        .word "fontsize", .mark '=', .word "10", .mark ']', .mark ';'] :=
    reads_of_lex (by decide +kernel) (by decide +kernel)
  have hedges : Reads "  edge [fontname=\"Helvetica\", fontsize=8];\n".toList
      [.word "edge", .mark '[', .word "fontname", .mark '=', .quoted "Helvetica", .mark ',',
        .word "fontsize", .mark '=', .word "8", .mark ']', .mark ';'] :=
    reads_of_lex (by decide +kernel) (by decide +kernel)
  have hall := ((hopen.append hdirection).append hnodes).append hedges
  rw [← String.toList_append, ← String.toList_append, ← String.toList_append] at hall
  exact hall

/-- The settings are the first statements of the graph. -/
theorem statements_settingsTokens (rest : List Token) :
    statements [] (settingsTokens ++ rest) = (statements [] rest).map (settings ++ ·) := by
  simp [settingsTokens, statements, statement?, trailing?, attributes?, Token.text?, settings, kinds,
    Function.comp_def]

theorem reads_newline : Reads "\n".toList [] :=
  reads_of_lex (by decide +kernel) (by decide +kernel)

/-- **The text of a graph** says what the graph is, if all labels end where they
should. -/
theorem read_dot {g : Graph} {a : Arena}
    (h : ∀ id ∈ g.nodes, EvenRuns (caption a id).toList) :
    read (g.dot a) = some ("DeclarationGraph",
      settings ++ g.nodes.map (nodeStatement a) ++ g.edges.map edgeStatement) := by
  have hend : Reads "\x7d\n".toList [.mark '}'] :=
    reads_of_lex (by decide +kernel) (by decide +kernel)
  have hnodes := Reads.flatMap fun id hid => reads_nodeLine (h id hid)
  have hedges := Reads.flatMap fun e (_ : e ∈ g.edges) => reads_edgeLine e
  have hfront := ((reads_header.append reads_newline).append hnodes).append reads_newline
  have hall := (hfront.append hedges).append hend
  rw [← toList_dot] at hall
  have hstatements : statements [] (settingsTokens ++
        (g.nodes.flatMap (fun id => nodeTokens a id ++ [.mark ';']) ++
          (g.edges.flatMap (fun e => edgeTokens e ++ [.mark ';']) ++ [.mark '}']))) =
      some (settings ++ (g.nodes.map (nodeStatement a) ++ (g.edges.map edgeStatement ++ []))) := by
    rw [statements_settingsTokens, statements_flatMap fun id _ => says_nodeTokens a id,
      statements_flatMap fun e _ => says_edgeTokens e]
    rfl
  simp only [List.append_assoc, List.cons_append, List.nil_append, List.append_nil] at hall
  simp only [List.append_nil] at hstatements
  simp only [Dot.read, hall.lex_eq, hstatements, List.append_assoc]
  rfl

/-- If a label does not end where it should, the text of a graph cannot be read. -/
theorem read_dot_eq_none {g : Graph} {a : Arena}
    (h : ∃ id ∈ g.nodes, ¬ EvenRuns (caption a id).toList) : Dot.read (g.dot a) = none := by
  have hlex : lex (g.dot a).toList = none := by
    have hnodes := lex_nodeLines_eq_none h
      ("\n".toList ++ (g.edges.flatMap (fun e => (edgeLine e).toList) ++ "\x7d\n".toList))
    rw [toList_dot]
    simp only [List.append_assoc]
    rw [reads_header, reads_newline, hnodes]
    rfl
  rw [Dot.read, hlex]

/-- **Graphs are written so that they can be read**, as far as names allow.
Inside a quoted string a backslash pairs with a backslash or quote behind it,
and the first quote that is left over ends the string.  Then a label ends at
its closing quote if and only if the runs of backslashes before its quotes and
at its end are even, and it is read as it is if and only if also no two
backslashes in it are neighbours.  If all labels of a graph end where they
should, its text consists of one statement for each node and one for each edge
behind them, in their order; otherwise the text cannot be read at all.  Nodes
have different names, and edges run between nodes that are named. -/
theorem dot_well_formed {s : Session} {resolver : Option Resolver} {g : Graph}
    (hbuild : build s resolver = .ok g) (a : Arena) :
    (∀ (text : String) (rest : List Char),
      (∃ cs, readQuoted ((quoted text).toList ++ '"' :: rest) = some (cs, rest)) ↔
        EvenRuns text.toList) ∧
    (∀ (text : String) (rest : List Char),
      readQuoted ((quoted text).toList ++ '"' :: rest) = some (text.toList, rest) ↔
        EvenRuns text.toList ∧ ¬ ['\\', '\\'] <:+: text.toList) ∧
    ((∀ id ∈ g.nodes, EvenRuns (caption a id).toList) →
      Dot.read (g.dot a) = some ("DeclarationGraph",
        settings ++ g.nodes.map (nodeStatement a) ++ g.edges.map edgeStatement)) ∧
    ((∃ id ∈ g.nodes, ¬ EvenRuns (caption a id).toList) → Dot.read (g.dot a) = none) ∧
    (g.nodes.map nodeName).Nodup ∧
    ∀ e ∈ g.edges, nodeName e.source ∈ g.nodes.map nodeName ∧
      nodeName e.target ∈ g.nodes.map nodeName := by
  have hproper := proper_build hbuild
  refine ⟨?_, ?_, read_dot, read_dot_eq_none, ?_, ?_⟩
  · intro text rest
    simp only [toList_quoted, readQuoted_escaped_iff, exists_and_left, exists_eq, and_true]
  · intro text rest
    rw [toList_quoted, readQuoted_escaped_iff, ← collapse_eq_self_iff, @eq_comm _ text.toList]
  · exact hproper.nodup.map fun _ _ => nodeName_injective
  · intro e he
    obtain ⟨hsource, htarget⟩ := hproper.listed e he
    exact ⟨List.mem_map_of_mem hsource, List.mem_map_of_mem htarget⟩

/-! Two documents with one declaration each, one of them named with a quote and a
backslash, the other one with a backslash at the end. -/

/-- The session with a document whose declaration has the given name. -/
def namedSession (name : String) : Session where
  arena := ⟨#[
    { kind := .schema, space := "urn:a", children := [⟨1⟩] },
    { kind := .element, name := some name, space := "urn:a" }]⟩
  registries := .ofList [("urn:a", { targetSpace := "urn:a", roots := [⟨0⟩] })]

def namedGraph : Graph := { nodes := [⟨0⟩, ⟨1⟩], edges := [⟨⟨0⟩, ⟨1⟩, .contains⟩] }

theorem build_namedSession (name : String) : build (namedSession name) none = .ok namedGraph := by
  have hroots : (namedSession name).registries.values.flatMap (·.roots) = [⟨0⟩] := rfl
  rw [build, hroots]
  simp [namedSession, explore, discover, addNodes, addNode, Arena.get?, namedGraph]

/-- The quote and the backslash are read as they are. -/
theorem dot_well_formed_quote :
    build (namedSession "a\\b\"") none = .ok namedGraph ∧
      (∀ id ∈ namedGraph.nodes, EvenRuns (caption (namedSession "a\\b\"").arena id).toList) ∧
      Dot.read (namedGraph.dot (namedSession "a\\b\"").arena) = some ("DeclarationGraph",
        settings ++
          [.node "n0" [("label", "schema"), ("fillcolor", "#607D8B")],
            .node "n1" [("label", "element a\\b\""), ("fillcolor", "#FF9800")],
            .edge "n0" "n1" []]) := by
  have hbuild := build_namedSession "a\\b\""
  have heven : ∀ id ∈ namedGraph.nodes,
      EvenRuns (caption (namedSession "a\\b\"").arena id).toList := by
    have hread : ∀ id ∈ namedGraph.nodes,
        readQuoted (escaped (caption (namedSession "a\\b\"").arena id).toList ++ ['"']) =
          some (collapse (caption (namedSession "a\\b\"").arena id).toList, []) := by
      decide +kernel
    exact fun id hid => (readQuoted_escaped_iff.mp (hread id hid)).1
  obtain ⟨-, -, hwhole, -⟩ := dot_well_formed hbuild (namedSession "a\\b\"").arena
  refine ⟨hbuild, heven, ?_⟩
  rw [hwhole heven]
  decide +kernel

/-- The backslash at the end takes the closing quote away from the label, and
nothing can be read. -/
theorem dot_unreadable :
    build (namedSession "a\\") none = .ok namedGraph ∧
      caption (namedSession "a\\").arena ⟨1⟩ = "element a\\" ∧
      readQuoted ((quoted "element a\\").toList ++ "\", fillcolor=\"#FF9800\"];".toList) =
        some ("element a\", fillcolor=".toList, "#FF9800\"];".toList) ∧
      Dot.read (namedGraph.dot (namedSession "a\\").arena) = none := by
  have hcaption : caption (namedSession "a\\").arena ⟨1⟩ = "element a\\" := by decide +kernel
  have hodd : ¬ EvenRuns (caption (namedSession "a\\").arena ⟨1⟩).toList := by
    rw [hcaption]
    intro heven
    exact absurd (heven "element a".toList 1 [] (by decide +kernel) (by decide) (by simp))
      (by decide)
  exact ⟨build_namedSession _, hcaption, by decide +kernel,
    read_dot_eq_none ⟨⟨1⟩, by simp [namedGraph], hodd⟩⟩

end Graph

end SchemaCatalog
