import SchemaCatalog.Registry.Basic

/-!
# SchemaCatalog.Walk

A depth-first walk over everything below the roots of a registry. A visitor is called on each node
in pre-order, children in their order, and the node's flag is set once the visitor has accepted it.
A node that is flagged already, or that is a root of the registry, is counted as skipped and not
entered. A visitor that refuses a node ends the walk; flags set before stay.

The walk ends on every graph: each step either flags a node or takes one edge off the stack
(`Arena.pending_markProcessed_lt`).
-/

namespace SchemaCatalog

/-- What a visitor sees besides the node itself. -/
structure Scope where
  arena : Arena
  /-- The document root that the node was reached from; its bindings are the prefixes in scope. -/
  root : NodeId
  /-- The registry whose roots are walked. -/
  registry : Registry
  /-- All registries of the session, by target namespace. -/
  registries : Table String Registry

/-- A visitor changes its own state and accepts the node (`none`) or refuses it with an error. -/
abbrev Visitor (σ : Type) := Scope → NodeId → σ → σ × Option Error

/-- The counters of a walk. -/
structure Tally where
  /-- Nodes that the visitor accepted. -/
  processed : Nat := 0
  /-- Edges to nodes that were roots or flagged already. -/
  skipped : Nat := 0
  deriving DecidableEq, Repr, Inhabited

namespace Tally

def process (t : Tally) : Tally := { t with processed := t.processed + 1 }

def skip (t : Tally) : Tally := { t with skipped := t.skipped + 1 }

end Tally

/-- How far a walk has come: the arena with its flags, the visitor's state, and the counters. -/
structure Walk (σ : Type) where
  arena : Arena
  state : σ
  tally : Tally := {}

namespace Walk

variable {σ : Type}

/-- Takes the nodes of a stack in turn, below one document root. -/
def drain (visit : Visitor σ) (registry : Registry) (registries : Table String Registry)
    (root : NodeId) (w : Walk σ) : List NodeId → Walk σ × Option Error
  | [] => (w, none)
  | id :: stack =>
    if id ∈ registry.roots then
      drain visit registry registries root { w with tally := w.tally.skip } stack
    else
      match _known : w.arena.get? id with
      | none => (w, some (.unknownNode id))
      | some d =>
        if _flag : d.processed then
          drain visit registry registries root { w with tally := w.tally.skip } stack
        else
          match visit ⟨w.arena, root, registry, registries⟩ id w.state with
          | (state, some e) => ({ w with state }, some e)
          | (state, none) =>
            drain visit registry registries root
              { arena := w.arena.markProcessed id, state, tally := w.tally.process }
              (d.children ++ stack)
  termination_by stack => (w.arena.pending, stack.length)
  decreasing_by
  · exact Prod.Lex.right _ (Nat.lt_succ_self _)
  · exact Prod.Lex.right _ (Nat.lt_succ_self _)
  · exact Prod.Lex.left _ _ (Arena.pending_markProcessed_lt _known (by simpa using _flag))

/-- Walks below some of the roots of a registry, in order. -/
def below (visit : Visitor σ) (registry : Registry) (registries : Table String Registry)
    (w : Walk σ) : List NodeId → Walk σ × Option Error
  | [] => (w, none)
  | root :: roots =>
    match w.arena.get? root with
    | none => (w, some (.unknownNode root))
    | some d =>
      match drain visit registry registries root w d.children with
      | (w, some e) => (w, some e)
      | (w, none) => below visit registry registries w roots

def through (visit : Visitor σ) (registries : Table String Registry) (w : Walk σ) :
    List Registry → Walk σ × Option Error
  | [] => (w, none)
  | r :: rest =>
    match below visit r registries w r.roots with
    | (w, some e) => (w, some e)
    | (w, none) => through visit registries w rest

end Walk

/-- Walks everything below the roots of a registry. -/
def Registry.walk {σ : Type} (registry : Registry) (visit : Visitor σ)
    (registries : Table String Registry) (arena : Arena) (state : σ) : Walk σ × Option Error :=
  Walk.below visit registry registries { arena, state } registry.roots

end SchemaCatalog
