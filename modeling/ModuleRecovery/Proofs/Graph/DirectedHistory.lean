import ModuleRecovery.Proofs.Graph.Directed

set_option relaxedAutoImplicit false
set_option autoImplicit false

/-!
# Directed graphs and their histories

A graph that grew step by step from nothing is told by its history: its nodes are the values that
the steps mention, and the successors of a node are the targets of the edges added from it, both in
order of first occurrence.

The same graph can be kept in two tables, the nodes and, at the position of each node, the set of
its successors. A step that finds the set to change by the position of its source keeps the tables
side by side: they are those of the graph after the step.

## Main definitions

* `ModuleRecovery.Digraph.Step.mentions` — the values a step mentions.
* `ModuleRecovery.Digraph.Step.target?` — the target of an edge from a node.
* `ModuleRecovery.SuccessorTable` — a directed graph in two tables.
* `ModuleRecovery.Digraph.table` — the two tables of a graph.

## Main results

* `ModuleRecovery.Digraph.nodes_ofSteps`, `ModuleRecovery.Digraph.row_ofSteps` — the nodes and the
  successors of a graph by its history.
* `ModuleRecovery.Digraph.length_edges` — the edges are counted row by row.
* `ModuleRecovery.SuccessorTable.ofSteps_eq_table` — the tables stay those of the graph.
* `ModuleRecovery.Digraph.edges_ofSteps_eq_history` — the nodes and the edges of a graph by its
  history.
-/

universe u

namespace ModuleRecovery

variable {α : Type u} [DecidableEq α]

namespace Digraph

/-- The values that a step mentions, the source of an edge before its target. -/
def Step.mentions : Step α → List α
  | .node a => [a]
  | .edge a b => [a, b]

/-- The target of a step that adds an edge from `a`. -/
def Step.target? (a : α) : Step α → Option α
  | .node _ => none
  | .edge c b => if c = a then some b else none

variable {steps : List (Step α)} {a b : α}

/-! ## Nodes and successors -/

/-- A step inserts the values it mentions into the nodes. -/
theorem nodes_apply (g : Digraph α) (s : Step α) :
    (g.apply s).nodes = s.mentions.foldl OrderedSet.insert g.nodes := by
  cases s with
  | node a => exact nodes_addNode g a
  | edge a b => exact nodes_addEdge g a b

/-- A step inserts the target of an edge into the successors of its source. -/
theorem row_apply (g : Digraph α) (s : Step α) (a : α) :
    (g.apply s).row a = (s.target? a).toList.foldl OrderedSet.insert (g.row a) := by
  cases s with
  | node c => exact row_addNode g c a
  | edge c b =>
    rw [apply, row_addEdge, Step.target?]
    by_cases h : c = a
    · rw [if_pos h.symm, if_pos h]
      rfl
    · rw [if_neg (Ne.symm h), if_neg h]
      rfl

/-- **The nodes are the values mentioned, in order of first mention.** -/
theorem nodes_ofSteps (steps : List (Step α)) :
    (ofSteps steps).nodes = .ofList (steps.flatMap Step.mentions) := by
  induction steps using List.reverseRecOn with
  | nil => rfl
  | append_singleton steps s ih =>
    rw [ofSteps_concat, nodes_apply, ih, List.flatMap_append, List.flatMap_singleton,
      OrderedSet.ofList_append]

/-- **The successors of a node are the targets of the edges added from it, in order of first
insertion.** -/
theorem row_ofSteps (steps : List (Step α)) (a : α) :
    (ofSteps steps).row a = .ofList (steps.filterMap (Step.target? a)) := by
  induction steps using List.reverseRecOn with
  | nil => rfl
  | append_singleton steps s ih =>
    rw [ofSteps_concat, row_apply, ih, List.filterMap_append, OrderedSet.ofList_append]
    rfl

theorem mem_filterMap_target? : b ∈ steps.filterMap (Step.target? a) ↔ .edge a b ∈ steps := by
  rw [List.mem_filterMap]
  constructor
  · rintro ⟨s, hs, htarget⟩
    cases s with
    | node c => cases htarget
    | edge c d =>
      obtain ⟨rfl, heq⟩ := Option.ite_none_right_eq_some.1 htarget
      obtain rfl := Option.some.inj heq
      exact hs
  · exact fun h => ⟨.edge a b, h, if_pos rfl⟩

/-- **There is an edge exactly if a step added it.** -/
theorem mem_edges_ofSteps : (a, b) ∈ (ofSteps steps).edges ↔ .edge a b ∈ steps := by
  rw [mem_edges_iff, row_ofSteps, OrderedSet.mem_ofList, mem_filterMap_target?]

/-- **Both ends of an edge are nodes.** -/
theorem mem_nodes_of_mem_edges (h : (a, b) ∈ (ofSteps steps).edges) :
    a ∈ (ofSteps steps).nodes ∧ b ∈ (ofSteps steps).nodes := by
  have hstep := mem_edges_ofSteps.1 h
  rw [nodes_ofSteps, OrderedSet.mem_ofList, OrderedSet.mem_ofList, List.mem_flatMap,
    List.mem_flatMap]
  exact ⟨⟨_, hstep, by simp [Step.mentions]⟩, ⟨_, hstep, by simp [Step.mentions]⟩⟩

theorem hasEdge_iff {g : Digraph α} : g.hasEdge a b = true ↔ (a, b) ∈ g.edges := by
  rw [mem_edges_iff, hasEdge, row]
  cases g.successors? a with
  | none => simp [OrderedSet.mem_def]
  | some targets => exact OrderedSet.contains_iff

/-- A node, and no other value, has a set of successors. -/
theorem successors?_eq_some_iff {g : Digraph α} {targets : OrderedSet α} :
    g.successors? a = some targets ↔ a ∈ g.nodes ∧ targets = g.row a := by
  rw [nodes, g.rows.mem_keys_iff, row, successors?]
  cases g.rows.get? a with
  | none => simp
  | some row => simp [eq_comm]

omit [DecidableEq α] in
/-- **The edges are counted row by row.** -/
theorem length_edges (g : Digraph α) : g.edges.length = g.edgeCount := by
  rw [edges, edgeCount, OrderedMap.values]
  induction g.rows.entries with
  | nil => rfl
  | cons row rows ih =>
    rw [List.flatMap_cons, List.length_append, List.length_map, ih]
    rfl

end Digraph

/-! ## Two tables side by side -/

/-- A directed graph in two tables: its nodes, and at the position of each node the set of its
successors. -/
structure SuccessorTable (α : Type u) where
  /-- The nodes, in order of first mention. -/
  nodes : OrderedSet α := ∅
  /-- The successors, by the positions of their nodes. -/
  successors : List (OrderedSet α) := []

namespace SuccessorTable

/-- Add `a` to the nodes, with an empty set of successors if it is new, and tell its position. -/
def addNode (t : SuccessorTable α) (a : α) : SuccessorTable α × Nat :=
  match t.nodes.insertAt a with
  | (nodes, i, isNew) =>
    (⟨nodes, if isNew then t.successors ++ [∅] else t.successors⟩, i)

/-- Add the edge from `a` to `b`, and either end to the nodes where needed: `b` goes into the set
at the position of `a`. -/
def addEdge (t : SuccessorTable α) (a b : α) : SuccessorTable α :=
  let (t, i) := t.addNode a
  let (t, _) := t.addNode b
  { t with successors := t.successors.modify i (·.insert b) }

/-- The set at the position of a node. -/
def successors? (t : SuccessorTable α) (a : α) : Option (OrderedSet α) :=
  (t.nodes.position? a).bind (t.successors[·]?)

omit [DecidableEq α] in
/-- All edges, where each node is taken together with the set at the same place. -/
def edges (t : SuccessorTable α) : List (α × α) :=
  (t.nodes.toList.zip t.successors).flatMap fun row => row.2.toList.map (row.1, ·)

/-- Carry out one step. -/
def apply (t : SuccessorTable α) : Digraph.Step α → SuccessorTable α
  | .node a => (t.addNode a).1
  | .edge a b => t.addEdge a b

/-- The tables that a list of steps builds from nothing. -/
def ofSteps (steps : List (Digraph.Step α)) : SuccessorTable α :=
  steps.foldl apply {}

end SuccessorTable

open SuccessorTable

/-- The two tables of a directed graph. -/
def Digraph.table (g : Digraph α) : SuccessorTable α where
  nodes := g.nodes
  successors := g.rows.values

namespace SuccessorTable

variable {g : Digraph α} {a b : α}

/-- **Adding a node keeps the tables side by side.** -/
theorem addNode_table (g : Digraph α) (a : α) :
    ∃ i, g.table.addNode a = ((g.addNode a).table, i) ∧
      (g.addNode a).nodes.position? a = some i := by
  obtain ⟨i, hinsert, hi⟩ := g.nodes.insertAt_spec a
  refine ⟨i, ?_, by rwa [Digraph.nodes_addNode]⟩
  have hvalues : (g.addNode a).rows.values =
      if decide (a ∉ g.nodes) then g.rows.values ++ [∅] else g.rows.values := by
    by_cases ha : a ∈ g.nodes
    · obtain ⟨j, hj⟩ := OrderedSet.exists_position? ha
      rw [if_neg (by simpa using ha), Digraph.addNode, OrderedMap.values_upsert_of_position? hj]
      exact List.modify_id _ _
    · rw [if_pos (by simpa using ha), Digraph.addNode, OrderedMap.values_upsert_of_notMem ha]
      rfl
  rw [Digraph.table, addNode]
  simp only [hinsert]
  rw [← hvalues, Digraph.table, Digraph.nodes_addNode]

/-- **Adding an edge keeps the tables side by side**: the position of the source still is its
position after the target was added. -/
theorem addEdge_table (g : Digraph α) (a b : α) :
    g.table.addEdge a b = (g.addEdge a b).table := by
  obtain ⟨i, ha, hi⟩ := addNode_table g a
  obtain ⟨j, hb, -⟩ := addNode_table (g.addNode a) b
  have hposition : ((g.addNode a).addNode b).rows.keys.position? a = some i := by
    show ((g.addNode a).addNode b).nodes.position? a = some i
    rw [Digraph.nodes_addNode]
    exact OrderedSet.position?_insert hi b
  have hnodes : (g.addEdge a b).nodes = ((g.addNode a).addNode b).nodes := by
    rw [Digraph.nodes_addEdge, Digraph.nodes_addNode, Digraph.nodes_addNode]
  have hvalues : (g.addEdge a b).rows.values =
      ((g.addNode a).addNode b).rows.values.modify i (·.insert b) :=
    OrderedMap.values_upsert_of_position? hposition _
  rw [addEdge, ha]
  simp only [hb]
  show SuccessorTable.mk ((g.addNode a).addNode b).nodes
      (((g.addNode a).addNode b).rows.values.modify i (·.insert b)) =
    .mk (g.addEdge a b).nodes (g.addEdge a b).rows.values
  rw [hnodes, hvalues]

/-- **The tables that a history builds are those of the graph that it builds.** -/
theorem ofSteps_eq_table (steps : List (Digraph.Step α)) :
    ofSteps steps = (Digraph.ofSteps steps).table := by
  induction steps using List.reverseRecOn with
  | nil => rfl
  | append_singleton steps s ih =>
    rw [Digraph.ofSteps_concat, ofSteps, List.foldl_append]
    show apply (ofSteps steps) s = _
    rw [ih]
    cases s with
    | node a =>
      obtain ⟨i, h, -⟩ := addNode_table (Digraph.ofSteps steps) a
      exact congrArg Prod.fst h
    | edge a b => exact addEdge_table _ a b

omit [DecidableEq α] in
/-- **There is one set of successors for each node.** -/
theorem length_successors_table (g : Digraph α) :
    g.table.successors.length = g.table.nodes.size := by
  rw [Digraph.table, Digraph.nodes, OrderedMap.values, OrderedSet.size, OrderedMap.keys,
    List.length_map, List.length_map]

/-- **The set at the position of a node is that of its successors.** -/
theorem successors?_table (g : Digraph α) (a : α) : g.table.successors? a = g.successors? a := by
  show (g.rows.keys.position? a).bind (g.rows.values[·]?) = g.rows.get? a
  cases hposition : g.rows.keys.position? a with
  | some i => exact OrderedMap.getElem?_values_of_position? hposition
  | none =>
    have ha := OrderedSet.position?_eq_none_iff.1 hposition
    cases hrow : g.rows.get? a with
    | none => rfl
    | some row => exact absurd (g.rows.mem_keys_iff.2 ⟨row, hrow⟩) ha

omit [DecidableEq α] in
/-- **The edges of the tables are those of the graph**: no set is taken together with another node
than its own. -/
theorem edges_table (g : Digraph α) : g.table.edges = g.edges := by
  have hzip : g.rows.keys.toList.zip g.rows.values = g.rows.entries := by
    rw [OrderedMap.keys, OrderedMap.values, List.zip_map']
    exact List.map_id _
  show (g.rows.keys.toList.zip g.rows.values).flatMap _ = _
  rw [hzip]
  rfl

end SuccessorTable

namespace Digraph

/-- **A directed graph is told by its history.** Its nodes are the values that the steps mention,
each once, in order of first mention, where an edge mentions its source before its target. The
nodes and no other values have a set of successors: the targets of the edges added from them, in
order of first insertion, which are nodes themselves. There is an edge exactly where a step added
one, and the edges are listed once each, grouped by their sources in node order; as many are
counted as are listed. If the nodes and the sets of successors are kept in two tables side by side,
there is one set for each node, and the tables tell the same successors and the same edges.

**Proof sketch.** A step inserts the values it mentions into the nodes, and the target of an edge
into the successors of its source; so both are collected from the history. Inserting into the nodes
moves none of them, so the position of the source leads to its set in the second table. -/
theorem edges_ofSteps_eq_history (steps : List (Step α)) :
    let g := ofSteps steps
    let t := SuccessorTable.ofSteps steps
    g.nodes.toList = (steps.flatMap Step.mentions).eraseDups ∧
    (∀ a targets, g.successors? a = some targets ↔
      a ∈ g.nodes ∧ targets.toList = (steps.filterMap (Step.target? a)).eraseDups) ∧
    (∀ e ∈ g.edges, e.1 ∈ g.nodes ∧ e.2 ∈ g.nodes) ∧
    (∀ a b, g.hasEdge a b = true ↔ .edge a b ∈ steps) ∧
    (∀ a b, (a, b) ∈ g.edges ↔ .edge a b ∈ steps) ∧
    g.edges.Nodup ∧
    g.edges = g.nodes.toList.flatMap
      (fun a => (steps.filterMap (Step.target? a)).eraseDups.map (a, ·)) ∧
    g.edgeCount = g.edges.length ∧
    (t.nodes = g.nodes ∧ t.successors.length = t.nodes.size ∧
      (∀ a, t.successors? a = g.successors? a) ∧ t.edges = g.edges) := by
  intro g t
  have ht : t = g.table := ofSteps_eq_table steps
  have hrow : ∀ a, (g.row a).toList = (steps.filterMap (Step.target? a)).eraseDups := by
    intro a
    rw [row_ofSteps, OrderedSet.toList_ofList]
  refine ⟨?_, fun a targets => ?_, fun e he => mem_nodes_of_mem_edges he,
    fun a b => hasEdge_iff.trans mem_edges_ofSteps, fun a b => mem_edges_ofSteps,
    g.nodup_edges, ?_, g.length_edges.symm, ?_⟩
  · rw [nodes_ofSteps, OrderedSet.toList_ofList]
  · rw [successors?_eq_some_iff, ← hrow, OrderedSet.ext_iff]
  · rw [edges_eq_flatMap]
    simp only [hrow]
  · rw [ht]
    exact ⟨rfl, length_successors_table g, successors?_table g, edges_table g⟩

-- a target before it is a source, an edge from a node to itself, and an edge added twice
example : (ofSteps [.edge 2 1, .node 3, .edge 1 1, .edge 2 1, .edge 2 3]).edges =
    [(2, 1), (2, 3), (1, 1)] := by decide

end Digraph

end ModuleRecovery
