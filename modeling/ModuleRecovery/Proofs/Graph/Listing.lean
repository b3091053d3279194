import ModuleRecovery.Proofs.Graph.DirectedHistory
import ModuleRecovery.Proofs.Graph.WeightedHistory
import ModuleRecovery.Report.Document

set_option relaxedAutoImplicit false
set_option autoImplicit false

/-!
# Graphs and their listings

A document lists the nodes of a graph and then its edges. Adding what is listed to an empty graph is
another history than that of the graph: every node is mentioned before the first edge, the edges of
a directed graph come source by source, and those of a weighted graph once for each pair, with the
sum of their weights. Still it leads to the same graph.

## Main definitions

* `ModuleRecovery.Digraph.listing`, `ModuleRecovery.WeightedGraph.listing` — the steps that add some
  nodes and then some edges.
* `ModuleRecovery.WeightTable.edges` — the edges that the tables of a weighted graph list.

## Main results

* `ModuleRecovery.Digraph.addEdges_edges`, `ModuleRecovery.WeightedGraph.addEdges_edges` — a graph
  is rebuilt from its nodes and its edges.
* `ModuleRecovery.WeightTable.IsTableOf.unique` — two tables of one graph tell the same.
* `ModuleRecovery.ofSteps_listing_eq_self` — a graph is rebuilt from its listing, also if it is kept
  in tables or written to a document.
-/

universe u

namespace ModuleRecovery

variable {α : Type u} [DecidableEq α]

/-! ## Directed graphs -/

namespace Digraph

variable {g h : Digraph α} {a : α}

omit [DecidableEq α] in
/-- The steps that add the nodes of a list and then the edges of a list. -/
def listing (nodes : List α) (edges : List (α × α)) : List (Step α) :=
  nodes.map .node ++ edges.map fun e => .edge e.1 e.2

theorem ofSteps_listing (nodes : List α) (edges : List (α × α)) :
    ofSteps (listing nodes edges) = ((∅ : Digraph α).addNodes nodes).addEdges edges := by
  rw [ofSteps, listing, List.foldl_append, List.foldl_map, List.foldl_map]
  rfl

/-- A graph is known by its nodes and by the successors of every node. -/
theorem eq_of_nodes_of_row (hnodes : g.nodes = h.nodes) (hrow : ∀ a, g.row a = h.row a) :
    g = h := by
  obtain ⟨⟨entries, nodup⟩⟩ := g
  obtain ⟨⟨entries', nodup'⟩⟩ := h
  have hentries : entries = entries' := by
    refine (OrderedMap.entries_eq_map_keys ⟨entries, nodup⟩ ∅).trans
      (.trans ?_ (OrderedMap.entries_eq_map_keys ⟨entries', nodup'⟩ ∅).symm)
    have hkeys : OrderedMap.keys ⟨entries, nodup⟩ = OrderedMap.keys ⟨entries', nodup'⟩ := hnodes
    rw [hkeys]
    exact List.map_congr_left fun a _ => congrArg (Prod.mk a) (hrow a)
  subst hentries
  rfl

/-- A value that is no node has no successors. -/
theorem row_eq_empty (ha : a ∉ g.nodes) : g.row a = ∅ := by
  cases hrow : g.successors? a with
  | none => rw [row, hrow, Option.getD_none]
  | some targets => exact absurd (g.rows.mem_keys_iff.2 ⟨targets, hrow⟩) ha

/-- The edges listed from a node lead to its successors, in their order. -/
theorem map_snd_filter_edges (g : Digraph α) (a : α) :
    (g.edges.filter (·.1 = a)).map Prod.snd = (g.row a).toList := by
  have hgroup : ∀ c, (((g.row c).toList.map (c, ·)).filter (·.1 = a)).map Prod.snd =
      if c = a then (g.row a).toList else [] := by
    intro c
    rw [List.filter_map, List.map_map]
    by_cases hc : c = a
    · subst hc
      simp [Function.comp_def]
    · simp [Function.comp_def, hc]
  rw [edges_eq_flatMap, List.filter_flatMap, List.map_flatMap]
  simp only [hgroup]
  by_cases ha : a ∈ g.nodes
  · -- the group of `a` stands between groups that add nothing
    obtain ⟨before, after, hnodes⟩ := List.append_of_mem ha
    have hnodup := g.nodes.nodup
    rw [hnodes, List.nodup_append, List.nodup_cons] at hnodup
    have hbefore : ∀ c ∈ before, (if c = a then (g.row a).toList else []) = [] :=
      fun c hc => if_neg fun hca => hnodup.2.2 c hc a List.mem_cons_self hca
    have hafter : ∀ c ∈ after, (if c = a then (g.row a).toList else []) = [] := by
      refine fun c hc => if_neg ?_
      rintro rfl
      exact hnodup.2.1.1 hc
    rw [hnodes, List.flatMap_append, List.flatMap_cons, List.flatMap_eq_nil_iff.2 hbefore,
      List.flatMap_eq_nil_iff.2 hafter, if_pos rfl, List.nil_append, List.append_nil]
  · rw [row_eq_empty ha]
    refine List.flatMap_eq_nil_iff.2 fun c hc => if_neg ?_
    rintro rfl
    exact ha hc

/-- **A directed graph is rebuilt from its nodes and its edges**, if all edges end in nodes. -/
theorem addEdges_edges (h : ∀ e ∈ g.edges, e.1 ∈ g.nodes ∧ e.2 ∈ g.nodes) :
    ((∅ : Digraph α).addNodes g.nodes.toList).addEdges g.edges = g := by
  have hstart : ((∅ : Digraph α).addNodes g.nodes.toList).nodes = g.nodes :=
    (nodes_addNodes ∅ _).trans (OrderedSet.ofList_toList g.nodes)
  refine eq_of_nodes_of_row ?_ fun a => ?_
  · rw [nodes_addEdges_of_mem fun e he => hstart.symm ▸ (h e he).1, hstart]
    refine OrderedSet.foldl_insert_of_subset fun b hb => ?_
    obtain ⟨e, he, rfl⟩ := List.mem_map.1 hb
    exact (h e he).2
  · rw [row_addEdges, row_addNodes, row_empty, map_snd_filter_edges]
    exact OrderedSet.ofList_toList (g.row a)

/-- **A directed graph that grew from nothing is rebuilt from its listing.** -/
theorem ofSteps_listing_ofSteps (steps : List (Step α)) :
    ofSteps (listing (ofSteps steps).nodes.toList (ofSteps steps).edges) = ofSteps steps := by
  rw [ofSteps_listing]
  exact addEdges_edges fun e he => mem_nodes_of_mem_edges he

end Digraph

/-- **The two tables of a directed graph are rebuilt from what they list.** -/
theorem SuccessorTable.ofSteps_listing_ofSteps (steps : List (Digraph.Step α)) :
    ofSteps (Digraph.listing (ofSteps steps).nodes.toList (ofSteps steps).edges) =
      ofSteps steps := by
  have htable : ofSteps steps = (Digraph.ofSteps steps).table := ofSteps_eq_table steps
  have hlisting : Digraph.listing (ofSteps steps).nodes.toList (ofSteps steps).edges =
      Digraph.listing (Digraph.ofSteps steps).nodes.toList (Digraph.ofSteps steps).edges := by
    rw [htable, edges_table]
    rfl
  rw [hlisting, ofSteps_eq_table, Digraph.ofSteps_listing_ofSteps, htable]

/-! ## Weighted graphs -/

namespace WeightedGraph

variable {g : WeightedGraph α}

omit [DecidableEq α] in
/-- The steps that add the nodes of a list and then the edges of a list. -/
def listing (nodes : List α) (edges : List (WeightedEdge α)) : List (Step α) :=
  nodes.map .node ++ edges.map fun e => .edge e.first e.second e.weight

theorem ofSteps_listing (nodes : List α) (edges : List (WeightedEdge α)) :
    ofSteps (listing nodes edges) = ((∅ : WeightedGraph α).addNodes nodes).addEdges edges := by
  rw [ofSteps, listing, List.foldl_append, List.foldl_map, List.foldl_map]
  rfl

/-- The edges of a graph that grew from nothing have positive weights. -/
theorem zero_lt_weight_of_mem_ofSteps {steps : List (Step α)} {e : WeightedEdge α}
    (he : e ∈ (ofSteps steps).edges) : 0 < e.weight :=
  zero_lt_of_weight?_ofSteps ((wellFormed_ofSteps steps).weight?_of_mem he)

/-- **A weighted graph is rebuilt from its nodes and its edges**, if it is well-formed and all
weights are positive: no two edges are between the same nodes, so no weight is added to another. -/
theorem addEdges_edges (h : g.WellFormed) (hpos : ∀ e ∈ g.edges, 0 < e.weight) :
    ((∅ : WeightedGraph α).addNodes g.nodes.toList).addEdges g.edges = g := by
  have hstart : ((∅ : WeightedGraph α).addNodes g.nodes.toList).nodes = g.nodes :=
    (nodes_addNodes_empty _).trans (OrderedSet.ofList_toList g.nodes)
  have hempty : ((∅ : WeightedGraph α).addNodes g.nodes.toList).edges = [] := edges_addNodes ∅ _
  have hends : ∀ e ∈ g.edges, g.nodes.Precedes e.first e.second := h.ends_lt
  have hnodes : (((∅ : WeightedGraph α).addNodes g.nodes.toList).addEdges g.edges).nodes =
      g.nodes := by
    rw [nodes_addEdges_of_mem, hstart]
    rw [hstart]
    exact fun e he => ⟨(hends e he).mem.1, (hends e he).mem.2.1⟩
  have hedges : (((∅ : WeightedGraph α).addNodes g.nodes.toList).addEdges g.edges).edges =
      g.edges := by
    rw [edges_addEdges h.edges_pairwise, hempty, List.nil_append]
    · exact List.filter_eq_self.2 fun e he => decide_eq_true (hpos e he)
    · rwa [hstart]
    · rw [hempty]
      exact nofun
  generalize ((∅ : WeightedGraph α).addNodes g.nodes.toList).addEdges g.edges = g' at hnodes hedges
  cases g
  cases g'
  subst hnodes hedges
  rfl

/-- **A weighted graph that grew from nothing is rebuilt from its listing.** -/
theorem ofSteps_listing_ofSteps (steps : List (Step α)) :
    ofSteps (listing (ofSteps steps).nodes.toList (ofSteps steps).edges) = ofSteps steps := by
  rw [ofSteps_listing]
  exact addEdges_edges (wellFormed_ofSteps steps) fun e => zero_lt_weight_of_mem_ofSteps

end WeightedGraph

namespace WeightTable

variable {t t' : WeightTable α} {g : WeightedGraph α}

omit [DecidableEq α] in
/-- The edges that the keys stand for, in their order; a key that stands for none is skipped. -/
def edges (t : WeightTable α) : List (WeightedEdge α) :=
  t.order.filterMap t.edge?

/-- **A graph is kept in one way only**: two tables of one graph have the same nodes, the same keys
in the same order, and tell the same weights. -/
theorem IsTableOf.unique (h : t.IsTableOf g) (h' : t'.IsTableOf g) (hg : g.WellFormed) :
    t'.nodes = t.nodes ∧ t'.order = t.order ∧ ∀ a b, t'.weight? a b = t.weight? a b := by
  refine ⟨h'.nodes_eq.trans h.nodes_eq.symm, ?_, fun a b => ?_⟩
  · refine List.right_unique_forall₂' (fun e key key' hkey hkey' => ?_) h'.order_eq h.order_eq
    exact Prod.ext (Option.some.inj (hkey.1.symm.trans hkey'.1))
      (Option.some.inj (hkey.2.symm.trans hkey'.2))
  · rw [h'.weight?_eq hg, h.weight?_eq hg]

/-- The edges that the keys of a table stand for are those of the graph. -/
theorem IsTableOf.edges_eq (h : t.IsTableOf g) (hg : g.WellFormed) : t.edges = g.edges := by
  have hmap := congrArg (List.filterMap id) (h.map_edge?_order hg)
  rw [List.filterMap_map, List.filterMap_map] at hmap
  simpa [edges] using hmap

/-- **The three tables of a weighted graph are rebuilt from what they list**, as far as they can be
asked. -/
theorem ofSteps_listing_ofSteps (steps : List (WeightedGraph.Step α)) :
    let t := ofSteps steps
    let t' := ofSteps (WeightedGraph.listing t.nodes.toList t.edges)
    t'.nodes = t.nodes ∧ t'.order = t.order ∧ t'.edges = t.edges ∧
      ∀ a b, t'.weight? a b = t.weight? a b := by
  intro t t'
  have hg : (WeightedGraph.ofSteps steps).WellFormed := WeightedGraph.wellFormed_ofSteps steps
  have ht : t.IsTableOf (.ofSteps steps) := isTableOf_ofSteps steps
  have ht' : t'.IsTableOf (.ofSteps steps) := by
    have htable := isTableOf_ofSteps (WeightedGraph.listing t.nodes.toList t.edges)
    rwa [ht.nodes_eq, ht.edges_eq hg, WeightedGraph.ofSteps_listing_ofSteps, ← ht.nodes_eq,
      ← ht.edges_eq hg] at htable
  obtain ⟨hnodes, horder, hweight⟩ := ht.unique ht' hg
  exact ⟨hnodes, horder, (ht'.edges_eq hg).trans (ht.edges_eq hg).symm, hweight⟩

end WeightTable

/-! ## Listings of graphs that grew -/

/-- **A graph is rebuilt from its listing.** However a graph grew from nothing, adding its nodes to
an empty graph, in their order, and then its edges, in theirs, leads to the same graph: a directed
one with the same nodes, the same successors in the same order and the same edges, and a weighted
one with the same nodes and the same edges in the same order, with the same weights. The same holds
if the graphs are kept in tables and listed from there, and for what a document holds of them.

**Proof sketch.** All nodes are there before the first edge, so the edges move none of them. The
edges listed from a node are its successors, in the order in which they were first inserted. A
weighted graph lists one edge for each pair that has a weight, so nothing is added to a weight, and
none of the weights is rejected, since they are positive. -/
theorem ofSteps_listing_eq_self :
    (∀ steps : List (Digraph.Step α),
      let g := Digraph.ofSteps steps
      let t := SuccessorTable.ofSteps steps
      Digraph.ofSteps (Digraph.listing g.nodes.toList g.edges) = g ∧
      SuccessorTable.ofSteps (Digraph.listing t.nodes.toList t.edges) = t) ∧
    (∀ steps : List (WeightedGraph.Step α),
      let g := WeightedGraph.ofSteps steps
      let t := WeightTable.ofSteps steps
      let t' := WeightTable.ofSteps (WeightedGraph.listing t.nodes.toList t.edges)
      WeightedGraph.ofSteps (WeightedGraph.listing g.nodes.toList g.edges) = g ∧
      t'.nodes = t.nodes ∧ t'.order = t.order ∧ t'.edges = t.edges ∧
        ∀ a b, t'.weight? a b = t.weight? a b) ∧
    (∀ steps : List (Digraph.Step String),
      let g := Digraph.ofSteps steps
      let d := GraphDocument.ofDigraph g
      Digraph.ofSteps (Digraph.listing (d.nodes.map NodeEntry.id) d.edges) = g) ∧
    ∀ steps : List (WeightedGraph.Step String),
      let g := WeightedGraph.ofSteps steps
      let d := CouplingDocument.ofGraph g
      WeightedGraph.ofSteps (WeightedGraph.listing d.nodes d.edges) = g := by
  refine ⟨fun steps => ⟨Digraph.ofSteps_listing_ofSteps steps,
    SuccessorTable.ofSteps_listing_ofSteps steps⟩, fun steps =>
      ⟨WeightedGraph.ofSteps_listing_ofSteps steps, WeightTable.ofSteps_listing_ofSteps steps⟩,
    fun steps => ?_, WeightedGraph.ofSteps_listing_ofSteps⟩
  intro g d
  have hids : d.nodes.map NodeEntry.id = g.nodes.toList := by
    show (g.nodes.toList.map _).map NodeEntry.id = _
    rw [List.map_map]
    exact List.map_id _
  rw [hids]
  exact Digraph.ofSteps_listing_ofSteps steps

end ModuleRecovery
