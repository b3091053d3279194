import Mathlib.Data.List.Nodup
import ModuleRecovery.Graph.Directed
import ModuleRecovery.Proofs.Collections.OrderedMap

set_option relaxedAutoImplicit false
set_option autoImplicit false

/-!
# How a directed graph grows

A graph is known by its nodes and by the successors of every node. Adding a node or an edge
inserts into the set of nodes, and an edge also into the set of successors of its source; so
a graph built from lists of nodes and edges has as nodes and successors what these lists
insert.

## Main definitions

* `ModuleRecovery.Digraph.row` — the successors of a node, none for any other value.

## Main results

* `ModuleRecovery.Digraph.edges_eq_flatMap` — the edges by nodes and successors.
* `ModuleRecovery.Digraph.nodup_edges` — no edge is listed twice.
* `ModuleRecovery.Digraph.nodes_addEdges_of_mem`, `ModuleRecovery.Digraph.row_addEdges` — the nodes
  and the successors after adding a list of edges.
* `ModuleRecovery.Digraph.mem_edges_addEdges_addNodes`,
  `ModuleRecovery.Digraph.nodes_addEdges_addNodes` — a graph built from nodes and edges.
-/

universe u

namespace ModuleRecovery.Digraph

variable {α : Type u}

variable [DecidableEq α]

/-- The successors of a node; there are none for a value that is no node. -/
def row (g : Digraph α) (a : α) : OrderedSet α :=
  (g.successors? a).getD ∅

/-- The edges lead from every node to its successors. -/
theorem edges_eq_flatMap (g : Digraph α) :
    g.edges = g.nodes.toList.flatMap fun a => (g.row a).toList.map (a, ·) := by
  rw [edges, g.rows.entries_eq_map_keys ∅, List.flatMap_map]
  rfl

/-- There is an edge from a node to each of its successors, and no other edge. -/
theorem mem_edges_iff {g : Digraph α} {a b : α} : (a, b) ∈ g.edges ↔ b ∈ g.row a := by
  rw [edges_eq_flatMap, List.mem_flatMap]
  constructor
  · rintro ⟨c, -, h⟩
    obtain ⟨d, hd, heq⟩ := List.mem_map.1 h
    obtain ⟨rfl, rfl⟩ := Prod.mk.inj heq
    exact hd
  · intro h
    refine ⟨a, g.rows.mem_keys_iff.2 ?_, List.mem_map_of_mem h⟩
    unfold row successors? at h
    cases hrow : g.rows.get? a with
    | none =>
      rw [hrow] at h
      cases h
    | some targets => exact ⟨targets, rfl⟩

/-- **No edge is listed twice.** -/
theorem nodup_edges (g : Digraph α) : g.edges.Nodup := by
  rw [edges_eq_flatMap, List.nodup_flatMap]
  refine ⟨fun a _ => (g.row a).nodup.map fun b c h => (Prod.mk.inj h).2, ?_⟩
  refine g.nodes.nodup.imp fun hab e he he' => ?_
  obtain ⟨c, -, rfl⟩ := List.mem_map.1 he
  obtain ⟨d, -, heq⟩ := List.mem_map.1 he'
  exact hab (Prod.mk.inj heq).1.symm

@[simp] theorem row_empty (a : α) : (∅ : Digraph α).row a = ∅ := rfl

/-! ## Nodes -/

@[simp] theorem nodes_addNode (g : Digraph α) (a : α) : (g.addNode a).nodes = g.nodes.insert a :=
  OrderedMap.keys_upsert _ _ _

@[simp] theorem row_addNode (g : Digraph α) (a b : α) : (g.addNode a).row b = g.row b := by
  simp only [row, successors?, addNode, OrderedMap.get?_upsert]
  split
  next h => rw [h]; rfl
  next => rfl

theorem nodes_addNodes (g : Digraph α) (l : List α) :
    (g.addNodes l).nodes = l.foldl OrderedSet.insert g.nodes := by
  induction l generalizing g with
  | nil => rfl
  | cons a l ih =>
    show ((g.addNode a).addNodes l).nodes = _
    rw [ih, nodes_addNode]
    rfl

theorem row_addNodes (g : Digraph α) (l : List α) (b : α) : (g.addNodes l).row b = g.row b := by
  induction l generalizing g with
  | nil => rfl
  | cons a l ih =>
    show ((g.addNode a).addNodes l).row b = _
    rw [ih, row_addNode]

/-! ## Edges -/

@[simp] theorem nodes_addEdge (g : Digraph α) (a b : α) :
    (g.addEdge a b).nodes = (g.nodes.insert a).insert b := by
  have hkeys : (g.addEdge a b).nodes = ((g.addNode a).addNode b).nodes.insert a :=
    OrderedMap.keys_upsert _ _ _
  rw [hkeys, nodes_addNode, nodes_addNode]
  exact OrderedSet.insert_of_mem (by simp)

theorem row_addEdge (g : Digraph α) (a b c : α) :
    (g.addEdge a b).row c = if c = a then (g.row c).insert b else g.row c := by
  have hbase : ∀ d, (((g.addNode a).addNode b).rows.get? d).getD ∅ = g.row d := by
    intro d
    have hrow : ((g.addNode a).addNode b).row d = g.row d := by
      rw [row_addNode, row_addNode]
    exact hrow
  simp only [row, successors?, addEdge, OrderedMap.get?_upsert]
  split
  next h => rw [h, Option.getD_some, hbase, row, successors?]
  next => exact hbase c

/-- If the sources of the edges are there already, adding the edges inserts their targets into the
set of nodes. -/
theorem nodes_addEdges_of_mem {g : Digraph α} {es : List (α × α)} (h : ∀ e ∈ es, e.1 ∈ g.nodes) :
    (g.addEdges es).nodes = (es.map Prod.snd).foldl OrderedSet.insert g.nodes := by
  induction es generalizing g with
  | nil => rfl
  | cons e es ih =>
    obtain ⟨he, hes⟩ := List.forall_mem_cons.1 h
    have hnodes : (g.addEdge e.1 e.2).nodes = g.nodes.insert e.2 := by
      rw [nodes_addEdge, OrderedSet.insert_of_mem he]
    show ((g.addEdge e.1 e.2).addEdges es).nodes = _
    rw [ih fun e' he' => hnodes ▸ OrderedSet.mem_insert.2 (.inl (hes e' he')), hnodes]
    rfl

/-- Adding edges inserts the targets of the edges from a node into the set of its successors. -/
theorem row_addEdges (g : Digraph α) (es : List (α × α)) (a : α) :
    (g.addEdges es).row a =
      ((es.filter (·.1 = a)).map Prod.snd).foldl OrderedSet.insert (g.row a) := by
  induction es generalizing g with
  | nil => rfl
  | cons e es ih =>
    show ((g.addEdge e.1 e.2).addEdges es).row a = _
    rw [ih, row_addEdge]
    by_cases h : e.1 = a
    · rw [List.filter_cons_of_pos (by simpa using h), if_pos h.symm]
      rfl
    · rw [List.filter_cons_of_neg (by simpa using h), if_neg (Ne.symm h)]

/-- Adding edges adds these edges and no others. -/
theorem mem_edges_addEdges {g : Digraph α} {es : List (α × α)} {a b : α} :
    (a, b) ∈ (g.addEdges es).edges ↔ (a, b) ∈ g.edges ∨ (a, b) ∈ es := by
  have htarget : b ∈ (es.filter (·.1 = a)).map Prod.snd ↔ (a, b) ∈ es := by
    rw [List.mem_map]
    constructor
    · rintro ⟨e, he, rfl⟩
      obtain ⟨hmem, ha⟩ := List.mem_filter.1 he
      obtain rfl : e.1 = a := of_decide_eq_true ha
      exact hmem
    · exact fun h => ⟨(a, b), List.mem_filter.2 ⟨h, decide_eq_true rfl⟩, rfl⟩
  rw [mem_edges_iff, mem_edges_iff, row_addEdges, OrderedSet.mem_foldl_insert, htarget]

/-! ## Histories -/

theorem ofSteps_concat (steps : List (Step α)) (s : Step α) :
    ofSteps (steps ++ [s]) = (ofSteps steps).apply s := by
  rw [ofSteps, List.foldl_append]
  rfl

/-! ## Graphs built from nodes and edges -/

variable {l : List α} {es : List (α × α)}

/-- A graph built from nodes and edges has these edges and no others. -/
theorem mem_edges_addEdges_addNodes {a b : α} :
    (a, b) ∈ (((∅ : Digraph α).addNodes l).addEdges es).edges ↔ (a, b) ∈ es := by
  have hstart : (a, b) ∉ ((∅ : Digraph α).addNodes l).edges := by
    rw [mem_edges_iff, row_addNodes, row_empty, OrderedSet.mem_def]
    exact List.not_mem_nil
  rw [mem_edges_addEdges, or_iff_right hstart]

/-- If the edges start at these nodes, they add their targets behind them. -/
theorem nodes_addEdges_addNodes (h : ∀ e ∈ es, e.1 ∈ l) :
    (((∅ : Digraph α).addNodes l).addEdges es).nodes =
      (es.map Prod.snd).foldl OrderedSet.insert (.ofList l) := by
  have hnodes : ((∅ : Digraph α).addNodes l).nodes = .ofList l := nodes_addNodes ∅ l
  rw [nodes_addEdges_of_mem, hnodes]
  rw [hnodes]
  exact fun e he => OrderedSet.mem_ofList.2 (h e he)

end ModuleRecovery.Digraph
