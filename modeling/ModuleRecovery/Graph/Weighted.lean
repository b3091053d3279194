import ModuleRecovery.Collections.OrderedSet

set_option relaxedAutoImplicit false
set_option autoImplicit false

/-!
# Undirected weighted graphs

An undirected graph with a positive weight on every edge. Adding an edge that is there
already adds to its weight. An edge from a node to itself, or one whose weight is not a
positive number, is not added at all, and neither are its ends.

## Main definitions

* `ModuleRecovery.WeightedGraph` — nodes and weighted edges in order of insertion.
* `ModuleRecovery.WeightedGraph.addEdge` — add an edge, or add to its weight.
* `ModuleRecovery.WeightedGraph.weight?` — the weight between two nodes.
-/

universe u

namespace ModuleRecovery

/-- An edge of a weighted graph; `first` is the end that comes earlier among the nodes. -/
structure WeightedEdge (α : Type u) where
  /-- The end that comes earlier among the nodes. -/
  first : α
  /-- The end that comes later among the nodes. -/
  second : α
  /-- The sum of the weights added between the two ends. -/
  weight : Float

/-- An undirected graph with weighted edges. -/
structure WeightedGraph (α : Type u) where
  /-- The nodes, in order of first mention. -/
  nodes : OrderedSet α := ∅
  /-- The edges, in order of first insertion. -/
  edges : List (WeightedEdge α) := []

namespace WeightedEdge

variable {α : Type u} [DecidableEq α]

/-- Whether the ends of the edge are `a` and `b`, in either order. -/
def joins (e : WeightedEdge α) (a b : α) : Bool :=
  (e.first = a && e.second = b) || (e.first = b && e.second = a)

end WeightedEdge

namespace WeightedGraph

variable {α : Type u}

instance : EmptyCollection (WeightedGraph α) := ⟨{}⟩

instance : Inhabited (WeightedGraph α) := ⟨∅⟩

/-- How many nodes the graph has. -/
def nodeCount (g : WeightedGraph α) : Nat :=
  g.nodes.size

/-- How many edges the graph has. -/
def edgeCount (g : WeightedGraph α) : Nat :=
  g.edges.length

variable [DecidableEq α]

/-- Add `a` to the nodes, unless it is one. -/
def addNode (g : WeightedGraph α) (a : α) : WeightedGraph α :=
  { g with nodes := g.nodes.insert a }

/-- Add `w` to the weight between `a` and `b`. -/
def increase (a b : α) (w : Float) (e : WeightedEdge α) : WeightedEdge α :=
  if e.joins a b then { e with weight := e.weight + w } else e

/-- The edge between `a` and `b`, with its ends in node order. -/
def orient (nodes : OrderedSet α) (a b : α) (w : Float) : WeightedEdge α :=
  match nodes.position? a, nodes.position? b with
  | some i, some j => if i ≤ j then ⟨a, b, w⟩ else ⟨b, a, w⟩
  | _, _ => ⟨a, b, w⟩

/-- Add an edge of weight `w` between `a` and `b`, if they differ and `w` is positive. -/
def addEdge (g : WeightedGraph α) (a b : α) (w : Float) : WeightedGraph α :=
  if a ≠ b ∧ 0 < w then
    let nodes := (g.nodes.insert a).insert b
    if g.edges.any (·.joins a b) then
      { nodes, edges := g.edges.map (increase a b w) }
    else
      { nodes, edges := g.edges ++ [orient nodes a b w] }
  else g

/-- The weight between `a` and `b`, in either order; `none` when no edge joins them. -/
def weight? (g : WeightedGraph α) (a b : α) : Option Float :=
  (g.edges.find? (·.joins a b)).map (·.weight)

/-- Add the nodes of a list, in order. -/
def addNodes (g : WeightedGraph α) (l : List α) : WeightedGraph α :=
  l.foldl addNode g

/-- Add the edges of a list, in order. -/
def addEdges (g : WeightedGraph α) (l : List (WeightedEdge α)) : WeightedGraph α :=
  l.foldl (fun g e => g.addEdge e.first e.second e.weight) g

/-- One step in the growth of a graph. -/
inductive Step (α : Type u) where
  /-- Mention a node. -/
  | node (a : α)
  /-- Add an edge. -/
  | edge (a b : α) (w : Float)

/-- Carry out one step. -/
def apply (g : WeightedGraph α) : Step α → WeightedGraph α
  | .node a => g.addNode a
  | .edge a b w => g.addEdge a b w

/-- The graph that a list of steps builds from nothing. -/
def ofSteps (steps : List (Step α)) : WeightedGraph α :=
  steps.foldl apply ∅

end WeightedGraph

end ModuleRecovery
