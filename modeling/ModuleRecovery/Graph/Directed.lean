import ModuleRecovery.Collections.OrderedMap

set_option relaxedAutoImplicit false
set_option autoImplicit false

/-!
# Directed graphs

A directed graph maps each node to the set of its successors, both in the order in which
they were first mentioned. Parallel edges collapse into one; an edge from a node to itself
is kept.

## Main definitions

* `ModuleRecovery.Digraph` — nodes with their successors.
* `ModuleRecovery.Digraph.addNode`, `ModuleRecovery.Digraph.addEdge` — the two ways to grow.
* `ModuleRecovery.Digraph.edges` — all edges, grouped by their source.
* `ModuleRecovery.Digraph.ofSteps` — the graph a history of growth leads to.
-/

universe u

namespace ModuleRecovery

/-- A directed graph: every node with the set of its successors. -/
structure Digraph (α : Type u) where
  /-- The successors of each node, by node in order of first mention. -/
  rows : OrderedMap α (OrderedSet α) := ∅

namespace Digraph

variable {α : Type u}

instance : EmptyCollection (Digraph α) := ⟨{}⟩

instance : Inhabited (Digraph α) := ⟨∅⟩

/-- The nodes, in order of first mention. -/
def nodes (g : Digraph α) : OrderedSet α :=
  g.rows.keys

/-- All edges, grouped by source in node order, and each group in order of insertion. -/
def edges (g : Digraph α) : List (α × α) :=
  g.rows.entries.flatMap fun row => row.2.toList.map (row.1, ·)

/-- How many nodes the graph has. -/
def nodeCount (g : Digraph α) : Nat :=
  g.nodes.size

/-- How many edges the graph has, counted row by row. -/
def edgeCount (g : Digraph α) : Nat :=
  g.rows.values.foldr (fun row n => row.size + n) 0

variable [DecidableEq α]

/-- Add `a` to the nodes, unless it is one. -/
def addNode (g : Digraph α) (a : α) : Digraph α where
  rows := g.rows.upsert a fun row => row.getD ∅

/-- Add the edge from `a` to `b`, and either end to the nodes where needed. -/
def addEdge (g : Digraph α) (a b : α) : Digraph α where
  rows := ((g.addNode a).addNode b).rows.upsert a fun row => (row.getD ∅).insert b

/-- The successors of a node. -/
def successors? (g : Digraph α) (a : α) : Option (OrderedSet α) :=
  g.rows.get? a

/-- Whether there is an edge from `a` to `b`. -/
def hasEdge (g : Digraph α) (a b : α) : Bool :=
  (g.successors? a).any (·.contains b)

/-- Add the nodes of a list, in order. -/
def addNodes (g : Digraph α) (l : List α) : Digraph α :=
  l.foldl addNode g

/-- Add the edges of a list, in order. -/
def addEdges (g : Digraph α) (l : List (α × α)) : Digraph α :=
  l.foldl (fun g e => g.addEdge e.1 e.2) g

/-- One step in the growth of a graph. -/
inductive Step (α : Type u) where
  /-- Mention a node. -/
  | node (a : α)
  /-- Add an edge. -/
  | edge (a b : α)

/-- Carry out one step. -/
def apply (g : Digraph α) : Step α → Digraph α
  | .node a => g.addNode a
  | .edge a b => g.addEdge a b

/-- The graph that a list of steps builds from nothing. -/
def ofSteps (steps : List (Step α)) : Digraph α :=
  steps.foldl apply ∅

end Digraph

end ModuleRecovery
