import Mathlib.Data.List.Forall2
import Mathlib.Logic.Function.Basic
import ModuleRecovery.Proofs.Graph.Weighted
import ModuleRecovery.Proofs.Number.Nonnegative

set_option relaxedAutoImplicit false
set_option autoImplicit false

/-!
# Weighted graphs in tables

A weighted graph can be kept in three tables: the nodes, the weights by the positions of the two
ends, and the keys of the edges in order of first insertion. A step that works on positions keeps
the tables those of the graph. So the weight at the positions of two nodes is that between the
nodes, and every key stands for an edge of the graph: both positions have a node, and the key has a
weight.

## Main definitions

* `ModuleRecovery.WeightTable` — a weighted graph in three tables.
* `ModuleRecovery.WeightTable.addEdge` — add an edge, or add to its weight.
* `ModuleRecovery.WeightTable.IsTableOf` — the tables are those of a graph.

## Main results

* `ModuleRecovery.WeightTable.IsTableOf.addEdge`, `ModuleRecovery.WeightTable.isTableOf_ofSteps` —
  the tables stay those of the graph.
* `ModuleRecovery.WeightTable.IsTableOf.weight?_eq` — they tell the weights.
* `ModuleRecovery.WeightTable.IsTableOf.map_edge?_order` — they tell the edges.
-/

universe u

namespace ModuleRecovery

open Number

variable {α : Type u}

/-- The key of an edge between two positions, the lower one first. -/
def edgeKey (i j : Nat) : Nat × Nat :=
  if i ≤ j then (i, j) else (j, i)

/-- A weighted graph in three tables. -/
structure WeightTable (α : Type u) where
  /-- The nodes, in order of first mention. -/
  nodes : OrderedSet α := ∅
  /-- The weights, by the positions of the two ends, the lower one first. -/
  weights : Nat × Nat → Option Float := fun _ => none
  /-- The keys of the edges, in order of first insertion. -/
  order : List (Nat × Nat) := []

namespace WeightTable

/-- Add to the weight at a key, or set it and note the key. -/
def addWeight (t : WeightTable α) (key : Nat × Nat) (w : Float) : WeightTable α :=
  match t.weights key with
  | some old => { t with weights := Function.update t.weights key (some (old + w)) }
  | none =>
    { t with
      weights := Function.update t.weights key (some w)
      order := t.order ++ [key] }

/-- The edge that a key stands for; there is none if a position has no node, or the key no
weight. -/
def edge? (t : WeightTable α) (key : Nat × Nat) : Option (WeightedEdge α) :=
  (t.nodes.get? key.1).bind fun a =>
    (t.nodes.get? key.2).bind fun b =>
      (t.weights key).map fun w => ⟨a, b, w⟩

variable [DecidableEq α]

/-- Add `a` to the nodes, unless it is one, and tell its position. -/
def addNode (t : WeightTable α) (a : α) : WeightTable α × Nat :=
  match t.nodes.insertAt a with
  | (nodes, i, _) => ({ t with nodes }, i)

/-- Add an edge, unless its ends are equal, or its weight is no number or not positive. -/
def addEdge (t : WeightTable α) (a b : α) (w : Float) : WeightTable α :=
  if a = b ∨ w.isNaN = true ∨ w ≤ 0 then t
  else
    let (t, i) := t.addNode a
    let (t, j) := t.addNode b
    t.addWeight (edgeKey i j) w

/-- The weight at the positions of two nodes. -/
def weight? (t : WeightTable α) (a b : α) : Option Float :=
  (t.nodes.position? a).bind fun i =>
    (t.nodes.position? b).bind fun j => t.weights (edgeKey i j)

/-- Carry out one step. -/
def apply (t : WeightTable α) : WeightedGraph.Step α → WeightTable α
  | .node a => (t.addNode a).1
  | .edge a b w => t.addEdge a b w

/-- The tables that a list of steps builds from nothing. -/
def ofSteps (steps : List (WeightedGraph.Step α)) : WeightTable α :=
  steps.foldl apply {}

/-- The tables are those of a graph. -/
structure IsTableOf (t : WeightTable α) (g : WeightedGraph α) : Prop where
  /-- The nodes are the same. -/
  nodes_eq : t.nodes = g.nodes
  /-- Each edge has its key, at the same place. -/
  order_eq : List.Forall₂ (fun e key => g.nodes.position? e.first = some key.1 ∧
    g.nodes.position? e.second = some key.2) g.edges t.order
  /-- The weight at two positions is that between the two nodes. -/
  weights_eq : ∀ a b i j, g.nodes.position? a = some i → g.nodes.position? b = some j →
    t.weights (edgeKey i j) = g.weight? a b
  /-- No weight is kept for a position behind the nodes. -/
  weights_eq_none : ∀ i j, g.nodes.size ≤ i ∨ g.nodes.size ≤ j → t.weights (edgeKey i j) = none

variable {t : WeightTable α} {g : WeightedGraph α} {a b : α} {w : Float} {i j : Nat}

/-! ## Keys and positions -/

theorem edgeKey_eq_iff {i' j' : Nat} :
    edgeKey i' j' = edgeKey i j ↔ (i' = i ∧ j' = j) ∨ (i' = j ∧ j' = i) := by
  unfold edgeKey
  split <;> split <;> simp only [Prod.mk.injEq] <;> omega

/-- Two keys are equal exactly if they are between the same two nodes. -/
theorem edgeKey_eq_iff_joins {nodes : OrderedSet α} {c d : α} {k l : Nat}
    (ha : nodes.position? a = some i) (hb : nodes.position? b = some j)
    (hc : nodes.position? c = some k) (hd : nodes.position? d = some l) (w : Float) :
    edgeKey k l = edgeKey i j ↔ (WeightedEdge.mk a b w).joins c d = true := by
  rw [edgeKey_eq_iff, WeightedEdge.joins_iff, OrderedSet.position?_inj hc ha,
    OrderedSet.position?_inj hd hb, OrderedSet.position?_inj hc hb, OrderedSet.position?_inj hd ha,
    eq_comm (a := c), eq_comm (a := d), eq_comm (a := c), eq_comm (a := d),
    and_comm (a := b = c)]

/-! ## Nodes -/

theorem addNode_spec (t : WeightTable α) (a : α) :
    ∃ i, t.addNode a = ({ t with nodes := t.nodes.insert a }, i) ∧
      (t.nodes.insert a).position? a = some i := by
  obtain ⟨i, hinsert, hi⟩ := t.nodes.insertAt_spec a
  refine ⟨i, ?_, hi⟩
  rw [addNode]
  simp only [hinsert]

/-- **Adding a node keeps the tables those of the graph.** -/
theorem IsTableOf.addNode (h : t.IsTableOf g) (hg : g.WellFormed) (a : α) :
    ∃ t' i, t.addNode a = (t', i) ∧ t'.IsTableOf (g.addNode a) ∧
      (g.addNode a).nodes.position? a = some i := by
  obtain ⟨i, hadd, hi⟩ := addNode_spec t a
  rw [h.nodes_eq] at hadd hi
  refine ⟨_, i, hadd, ⟨rfl, ?_, fun c d k l hc hd => ?_, fun k l hkl => ?_⟩, hi⟩
  · refine h.order_eq.imp fun e key hkey => ?_
    exact ⟨OrderedSet.position?_insert hkey.1 a, OrderedSet.position?_insert hkey.2 a⟩
  · -- a new node has no weight yet, and its position no entry
    show t.weights (edgeKey k l) = g.weight? c d
    rcases OrderedSet.position?_of_insert hc with hc | ⟨hc, hk⟩
    · rcases OrderedSet.position?_of_insert hd with hd | ⟨hd, hl⟩
      · exact h.weights_eq c d k l hc hd
      · rw [h.weights_eq_none k l (.inr hl), hg.weight?_eq_none (.inr hd)]
    · rw [h.weights_eq_none k l (.inl hk), hg.weight?_eq_none (.inl hc)]
  · have hsize : g.nodes.size ≤ (g.nodes.insert a).size :=
      (OrderedSet.prefix_foldl_insert [a] g.nodes).length_le
    exact h.weights_eq_none k l (hkl.imp hsize.trans hsize.trans)

/-! ## Edges -/

omit [DecidableEq α] in
theorem weights_addWeight (t : WeightTable α) (key : Nat × Nat) (w : Float) :
    (t.addWeight key w).weights =
      Function.update t.weights key (some (((t.weights key).map (· + w)).getD w)) := by
  unfold addWeight
  split
  next old h => rw [h]; rfl
  next h => rw [h]; rfl

omit [DecidableEq α] in
theorem order_addWeight (t : WeightTable α) (key : Nat × Nat) (w : Float) :
    (t.addWeight key w).order = if (t.weights key).isSome then t.order else t.order ++ [key] := by
  unfold addWeight
  split
  next old h => rw [h]; rfl
  next h => rw [h]; rfl

omit [DecidableEq α] in
theorem nodes_addWeight (t : WeightTable α) (key : Nat × Nat) (w : Float) :
    (t.addWeight key w).nodes = t.nodes := by
  unfold addWeight
  split <;> rfl

/-- An edge between nodes at two positions has the key of these positions. -/
theorem orient_edgeKey {nodes : OrderedSet α} (ha : nodes.position? a = some i)
    (hb : nodes.position? b = some j) (w : Float) :
    nodes.position? (WeightedGraph.orient nodes a b w).first = some (edgeKey i j).1 ∧
      nodes.position? (WeightedGraph.orient nodes a b w).second = some (edgeKey i j).2 := by
  simp only [WeightedGraph.orient, edgeKey, ha, hb]
  split
  · exact ⟨ha, hb⟩
  · exact ⟨hb, ha⟩

/-- Adding weight at the positions of two nodes keeps the tables those of the graph. -/
theorem IsTableOf.addWeight (h : t.IsTableOf g) (ha : g.nodes.position? a = some i)
    (hb : g.nodes.position? b = some j) (hadd : a ≠ b ∧ 0 < w) :
    (t.addWeight (edgeKey i j) w).IsTableOf (g.addEdge a b w) := by
  have hmem : a ∈ g.nodes ∧ b ∈ g.nodes :=
    ⟨List.mem_of_getElem? (OrderedSet.position?_eq_some_iff.1 ha),
      List.mem_of_getElem? (OrderedSet.position?_eq_some_iff.1 hb)⟩
  have hnodes : (g.addEdge a b w).nodes = g.nodes :=
    WeightedGraph.nodes_addEdge_of_mem hmem.1 hmem.2 w
  have hinsert : (g.nodes.insert a).insert b = g.nodes := by
    rw [OrderedSet.insert_of_mem hmem.1, OrderedSet.insert_of_mem hmem.2]
  have hweight := h.weights_eq a b i j ha hb
  refine ⟨?_, ?_, fun c d k l hc hd => ?_, fun k l hkl => ?_⟩
  · rw [nodes_addWeight, hnodes, h.nodes_eq]
  · rw [hnodes, order_addWeight, hweight, WeightedGraph.edges_addEdge g hadd, hinsert]
    split
    next =>
      refine List.forall₂_map_left_iff.2 (h.order_eq.imp fun e key hkey => ?_)
      rwa [WeightedGraph.first_increase, WeightedGraph.second_increase]
    next => exact List.rel_append h.order_eq (.cons (orient_edgeKey ha hb w) .nil)
  · rw [hnodes] at hc hd
    rw [weights_addWeight, hweight, WeightedGraph.weight?_addEdge, ← h.weights_eq c d k l hc hd]
    by_cases hkey : edgeKey k l = edgeKey i j
    · rw [hkey, Function.update_self, if_pos ⟨hadd, (edgeKey_eq_iff_joins ha hb hc hd w).1 hkey⟩]
    · rw [Function.update_of_ne hkey,
        if_neg fun hn => hkey ((edgeKey_eq_iff_joins ha hb hc hd w).2 hn.2)]
  · rw [hnodes] at hkl
    have hi := OrderedSet.position?_lt_size ha
    have hj := OrderedSet.position?_lt_size hb
    have hkey : edgeKey k l ≠ edgeKey i j := by
      rw [Ne, edgeKey_eq_iff]
      omega
    rw [weights_addWeight, Function.update_of_ne hkey]
    exact h.weights_eq_none k l hkl

omit [DecidableEq α] in
/-- An edge is not rejected exactly if its ends differ and its weight is positive. -/
theorem not_rejected_iff : ¬ (a = b ∨ w.isNaN = true ∨ w ≤ 0) ↔ a ≠ b ∧ 0 < w := by
  rw [not_or, ← zero_lt_iff]

/-- **Adding an edge keeps the tables those of the graph.** -/
theorem IsTableOf.addEdge (h : t.IsTableOf g) (hg : g.WellFormed) (a b : α) (w : Float) :
    (t.addEdge a b w).IsTableOf (g.addEdge a b w) := by
  unfold WeightTable.addEdge
  split
  next hrejected =>
    rwa [WeightedGraph.addEdge, if_neg fun hadd => not_rejected_iff.2 hadd hrejected]
  next hadd =>
    rw [not_rejected_iff] at hadd
    obtain ⟨t₁, i, ht₁, h₁, hi⟩ := h.addNode hg a
    obtain ⟨t₂, j, ht₂, h₂, hj⟩ := h₁.addNode (hg.addNode a) b
    rw [ht₁]
    simp only [ht₂]
    -- the first end keeps its position when the second one is added
    rw [← WeightedGraph.addEdge_addNode_addNode g hadd]
    exact h₂.addWeight (OrderedSet.position?_insert hi b) hj hadd

/-! ## Histories -/

theorem isTableOf_empty : IsTableOf ({} : WeightTable α) ∅ where
  nodes_eq := rfl
  order_eq := .nil
  weights_eq _ _ _ _ _ _ := rfl
  weights_eq_none _ _ _ := rfl

/-- **The tables that a history builds are those of the graph that it builds.** -/
theorem isTableOf_ofSteps (steps : List (WeightedGraph.Step α)) :
    (ofSteps steps).IsTableOf (WeightedGraph.ofSteps steps) := by
  induction steps using List.reverseRecOn with
  | nil => exact isTableOf_empty
  | append_singleton steps s ih =>
    have hg := WeightedGraph.wellFormed_ofSteps steps
    rw [WeightedGraph.ofSteps_concat, ofSteps, List.foldl_append]
    cases s with
    | node a =>
      obtain ⟨t', i, hadd, ht', -⟩ := ih.addNode hg a
      show (WeightTable.addNode (ofSteps steps) a).1.IsTableOf _
      rw [hadd]
      exact ht'
    | edge a b w => exact ih.addEdge hg a b w

/-! ## What the tables tell -/

/-- **The weight at the positions of two nodes is that between the nodes.** -/
theorem IsTableOf.weight?_eq (h : t.IsTableOf g) (hg : g.WellFormed) (a b : α) :
    t.weight? a b = g.weight? a b := by
  rw [weight?, h.nodes_eq]
  cases ha : g.nodes.position? a with
  | none => exact (hg.weight?_eq_none (.inl (OrderedSet.position?_eq_none_iff.1 ha))).symm
  | some i =>
    cases hb : g.nodes.position? b with
    | none => exact (hg.weight?_eq_none (.inr (OrderedSet.position?_eq_none_iff.1 hb))).symm
    | some j => exact h.weights_eq a b i j ha hb

/-- The key of an edge stands for the edge. -/
theorem IsTableOf.edge?_of_mem (h : t.IsTableOf g) (hg : g.WellFormed) {e : WeightedEdge α}
    {key : Nat × Nat} (he : e ∈ g.edges) (hfirst : g.nodes.position? e.first = some key.1)
    (hsecond : g.nodes.position? e.second = some key.2) : t.edge? key = some e := by
  obtain ⟨i, j, hi, hj, hlt⟩ := hg.ends_lt e he
  obtain rfl := Option.some.inj (hi.symm.trans hfirst)
  obtain rfl := Option.some.inj (hj.symm.trans hsecond)
  have hkey : edgeKey key.1 key.2 = key := if_pos (Nat.le_of_lt hlt)
  have hweight : t.weights key = some e.weight := by
    rw [← hg.weight?_of_mem he, ← h.weights_eq _ _ _ _ hfirst hsecond, hkey]
  rw [edge?, h.nodes_eq, OrderedSet.position?_eq_some_iff.1 hfirst,
    OrderedSet.position?_eq_some_iff.1 hsecond, hweight]
  rfl

/-- **Every key stands for an edge**: none is skipped, and none has no weight. -/
theorem IsTableOf.map_edge?_order (h : t.IsTableOf g) (hg : g.WellFormed) :
    t.order.map t.edge? = g.edges.map some := by
  have hedges : List.Forall₂ (fun e key => t.edge? key = some e) g.edges t.order :=
    ((List.forall₂_and_left _ _).2 ⟨fun e he => he, h.order_eq⟩).imp
      fun e key hkey => h.edge?_of_mem hg hkey.1 hkey.2.1 hkey.2.2
  rw [← List.forall₂_eq_eq_eq, List.forall₂_map_left_iff, List.forall₂_map_right_iff]
  exact hedges.flip

end WeightTable

end ModuleRecovery
