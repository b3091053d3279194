import Mathlib.Data.List.Basic
import ModuleRecovery.Graph.Weighted
import ModuleRecovery.Proofs.Collections.OrderedSet

set_option relaxedAutoImplicit false
set_option autoImplicit false

/-!
# How a weighted graph grows

A weighted graph is known by the weight between any two nodes. Adding an edge adds to the
weight between its ends, in either order, and to no other. So in a graph built from edges
that join different pairs of nodes, every edge of positive weight keeps its own weight.

However a graph grows, its edges are between nodes that have positions, the earlier one first, and
there is one edge between any two nodes at most.

## Main definitions

* `ModuleRecovery.WeightedGraph.WellFormed` — where edges may be.

## Main results

* `ModuleRecovery.WeightedGraph.weight?_comm` — the order of the nodes does not matter.
* `ModuleRecovery.WeightedGraph.weight?_addEdge` — the weights after adding one edge.
* `ModuleRecovery.WeightedGraph.weight?_addEdges` — the weights after adding edges that join
  different pairs.
* `ModuleRecovery.WeightedGraph.edges_addEdges` — the edges after adding such edges.
* `ModuleRecovery.WeightedGraph.edges_addEdge` — the edges after adding one edge.
* `ModuleRecovery.WeightedGraph.WellFormed.addEdge`,
  `ModuleRecovery.WeightedGraph.wellFormed_ofSteps` — growing keeps a graph well-formed.
* `ModuleRecovery.WeightedGraph.WellFormed.weight?_of_mem` — the weight of an edge is found.
* `ModuleRecovery.WeightedGraph.WellFormed.countP_joins` — how many edges are between two nodes.
-/

universe u

namespace ModuleRecovery

variable {α : Type u} [DecidableEq α] {a b c d : α} {w : Float}

namespace WeightedEdge

theorem joins_iff {e : WeightedEdge α} :
    e.joins a b = true ↔ (e.first = a ∧ e.second = b) ∨ (e.first = b ∧ e.second = a) := by
  simp [joins]

theorem joins_comm (e : WeightedEdge α) (a b : α) : e.joins a b = e.joins b a :=
  Bool.or_comm _ _

/-- Whether two edges are between the same two nodes does not depend on which one is asked. -/
theorem joins_ends_comm (e e' : WeightedEdge α) :
    e.joins e'.first e'.second = e'.joins e.first e.second := by
  rw [Bool.eq_iff_iff, joins_iff, joins_iff, eq_comm (a := e.first), eq_comm (a := e.second),
    eq_comm (a := e.first), eq_comm (a := e.second), and_comm (a := e'.second = e.first)]

/-- If an edge is between two nodes, the others between them are those between its ends. -/
theorem joins_congr {e : WeightedEdge α} (h : e.joins a b = true) (e' : WeightedEdge α) :
    e'.joins a b = e'.joins e.first e.second := by
  rcases joins_iff.1 h with ⟨rfl, rfl⟩ | ⟨rfl, rfl⟩
  · rfl
  · exact joins_comm e' _ _

end WeightedEdge

open WeightedEdge

namespace WeightedGraph

variable {g : WeightedGraph α}

/-- The weight between two nodes does not depend on their order. -/
theorem weight?_comm (g : WeightedGraph α) (a b : α) : g.weight? a b = g.weight? b a := by
  simp only [weight?, joins_comm _ a b]

/-- The weight between two nodes is the weight between the ends of an edge that joins them. -/
theorem weight?_of_joins {e : WeightedEdge α} (h : e.joins a b = true) (g : WeightedGraph α) :
    g.weight? e.first e.second = g.weight? a b := by
  rcases joins_iff.1 h with ⟨rfl, rfl⟩ | ⟨rfl, rfl⟩
  · rfl
  · exact weight?_comm g _ _

@[simp] theorem weight?_empty (a b : α) : (∅ : WeightedGraph α).weight? a b = none := rfl

@[simp] theorem edges_addNodes (g : WeightedGraph α) (l : List α) :
    (g.addNodes l).edges = g.edges := by
  induction l generalizing g with
  | nil => rfl
  | cons c l ih => exact ih (g.addNode c)

@[simp] theorem weight?_addNodes (g : WeightedGraph α) (l : List α) (a b : α) :
    (g.addNodes l).weight? a b = g.weight? a b := by
  rw [weight?, edges_addNodes, weight?]

@[simp] theorem joins_increase (a b : α) (w : Float) (e : WeightedEdge α) :
    (increase a b w e).joins c d = e.joins c d := by
  unfold increase
  split <;> rfl

@[simp] theorem first_increase (e : WeightedEdge α) : (increase a b w e).first = e.first := by
  unfold increase
  split <;> rfl

@[simp] theorem second_increase (e : WeightedEdge α) : (increase a b w e).second = e.second := by
  unfold increase
  split <;> rfl

@[simp] theorem joins_orient (nodes : OrderedSet α) (a b : α) (w : Float) :
    (orient nodes a b w).joins c d = (WeightedEdge.mk a b w).joins c d := by
  unfold orient
  split
  · split
    · rfl
    · simp [joins, Bool.or_comm, Bool.and_comm]
  · rfl

@[simp] theorem weight_orient (nodes : OrderedSet α) (a b : α) (w : Float) :
    (orient nodes a b w).weight = w := by
  unfold orient
  split
  · split <;> rfl
  · rfl

/-- Adding to the weight of a known edge. -/
theorem weight_find?_map_increase (es : List (WeightedEdge α)) :
    ((es.map (increase a b w)).find? (·.joins c d)).map (·.weight) =
      (es.find? (·.joins c d)).map fun e =>
        if (WeightedEdge.mk a b w).joins c d = true then e.weight + w else e.weight := by
  rw [List.find?_map, Option.map_map]
  simp only [Function.comp_def, joins_increase]
  refine Option.map_congr fun e he => ?_
  have hj := List.find?_some he
  have hsame : e.joins a b = (WeightedEdge.mk a b w).joins c d := by
    rw [joins_congr hj]
    exact joins_ends_comm e ⟨a, b, w⟩
  rw [increase, hsame]
  split <;> rfl

/-- **Adding an edge adds to the weight between its ends**, in either order, and to no other.
An edge from a node to itself, or one of no positive weight, adds nothing. -/
theorem weight?_addEdge (g : WeightedGraph α) (a b : α) (w : Float) (c d : α) :
    (g.addEdge a b w).weight? c d =
      if (a ≠ b ∧ 0 < w) ∧ (WeightedEdge.mk a b w).joins c d = true then
        some (((g.weight? a b).map (· + w)).getD w)
      else g.weight? c d := by
  by_cases hadd : a ≠ b ∧ 0 < w
  swap
  · rw [addEdge, if_neg hadd, if_neg fun h => hadd h.1]
  have hfind : (WeightedEdge.mk a b w).joins c d = true →
      g.edges.find? (·.joins c d) = g.edges.find? (·.joins a b) := fun hj =>
    congrArg g.edges.find? (funext fun e => joins_congr hj e)
  rw [addEdge, if_pos hadd]
  by_cases hany : g.edges.any (·.joins a b) = true
  · -- there is an edge between the ends
    simp only [hany, if_true, weight?, weight_find?_map_increase]
    by_cases hj : (WeightedEdge.mk a b w).joins c d = true
    · obtain ⟨e, he⟩ := Option.isSome_iff_exists.1 (List.find?_isSome.2 (List.any_eq_true.1 hany))
      simp [hj, hadd, hfind hj, he]
    · simp [hj]
  · have hnone : g.edges.find? (·.joins a b) = none :=
      List.find?_eq_none.2 fun e he hej => hany (List.any_eq_true.2 ⟨e, he, hej⟩)
    simp only [hany, if_false, Bool.false_eq_true, weight?, List.find?_append]
    by_cases hj : (WeightedEdge.mk a b w).joins c d = true
    · simp [hj, hadd, hfind hj, hnone]
    · simp [hj]

/-- An edge that is not between two nodes leaves their weight as it was. -/
theorem weight?_addEdge_of_not_joins {e : WeightedEdge α} (h : e.joins a b = false) :
    (g.addEdge e.first e.second e.weight).weight? a b = g.weight? a b := by
  rw [weight?_addEdge, if_neg]
  rintro ⟨-, hj⟩
  rw [h] at hj
  cases hj

/-- Edges that are not between two nodes leave their weight as it was. -/
theorem weight?_addEdges_of_not_joins {l : List (WeightedEdge α)}
    (h : ∀ e ∈ l, e.joins a b = false) : (g.addEdges l).weight? a b = g.weight? a b := by
  induction l generalizing g with
  | nil => rfl
  | cons e l ih =>
    rw [addEdges, List.foldl_cons]
    exact (ih fun e' he' => h e' (List.mem_cons_of_mem e he')).trans
      (weight?_addEdge_of_not_joins (h e List.mem_cons_self))

/-- **The weights of edges that join different pairs.** Every edge of the list that has a
positive weight and two different ends keeps this weight. -/
theorem weight?_addEdges {l : List (WeightedEdge α)}
    (hl : l.Pairwise fun e e' => e.joins e'.first e'.second = false) {e : WeightedEdge α}
    (he : e ∈ l) (hne : e.first ≠ e.second) (hnone : g.weight? e.first e.second = none) :
    (g.addEdges l).weight? e.first e.second = if 0 < e.weight then some e.weight else none := by
  have hself : e.joins e.first e.second = true := joins_iff.2 (.inl ⟨rfl, rfl⟩)
  induction l generalizing g with
  | nil => cases he
  | cons e' l ih =>
    obtain ⟨hhead, htail⟩ := List.pairwise_cons.1 hl
    rw [addEdges, List.foldl_cons]
    rcases List.mem_cons.1 he with rfl | he
    · have hrest : ∀ e' ∈ l, e'.joins e.first e.second = false := fun e' he' =>
        (joins_ends_comm e' e).trans (hhead e' he')
      refine (weight?_addEdges_of_not_joins hrest).trans ?_
      rw [weight?_addEdge, hnone]
      simp [hne, hself]
    · exact ih htail he ((weight?_addEdge_of_not_joins (hhead e he)).trans hnone)

/-! ## Nodes -/

theorem nodes_addNodes (g : WeightedGraph α) (l : List α) :
    (g.addNodes l).nodes = l.foldl OrderedSet.insert g.nodes := by
  induction l generalizing g with
  | nil => rfl
  | cons a l ih => exact ih (g.addNode a)

theorem nodes_addNodes_empty (l : List α) :
    ((∅ : WeightedGraph α).addNodes l).nodes = .ofList l :=
  nodes_addNodes ∅ l

/-- Adding an edge adds its ends to the nodes. -/
theorem nodes_addEdge (g : WeightedGraph α) (h : a ≠ b ∧ 0 < w) :
    (g.addEdge a b w).nodes = (g.nodes.insert a).insert b := by
  rw [addEdge, if_pos h]
  dsimp only
  split <;> rfl

/-- Adding the ends of an edge first changes nothing. -/
theorem addEdge_addNode_addNode (g : WeightedGraph α) (h : a ≠ b ∧ 0 < w) :
    ((g.addNode a).addNode b).addEdge a b w = g.addEdge a b w := by
  have hinsert : (((g.nodes.insert a).insert b).insert a).insert b =
      (g.nodes.insert a).insert b := by
    rw [OrderedSet.insert_of_mem (a := a) (by simp), OrderedSet.insert_of_mem (a := b) (by simp)]
  rw [addEdge, addEdge, if_pos h, if_pos h]
  simp only [addNode, hinsert]

/-- An edge between nodes adds no node. -/
theorem nodes_addEdge_of_mem (ha : a ∈ g.nodes) (hb : b ∈ g.nodes) (w : Float) :
    (g.addEdge a b w).nodes = g.nodes := by
  have hinsert : (g.nodes.insert a).insert b = g.nodes := by
    rw [OrderedSet.insert_of_mem ha, OrderedSet.insert_of_mem hb]
  unfold addEdge
  split
  · dsimp only
    split <;> exact hinsert
  · rfl

/-- Edges between nodes add no node. -/
theorem nodes_addEdges_of_mem {l : List (WeightedEdge α)}
    (h : ∀ e ∈ l, e.first ∈ g.nodes ∧ e.second ∈ g.nodes) : (g.addEdges l).nodes = g.nodes := by
  induction l generalizing g with
  | nil => rfl
  | cons e l ih =>
    obtain ⟨⟨hfirst, hsecond⟩, hl⟩ := List.forall_mem_cons.1 h
    have hnodes := nodes_addEdge_of_mem hfirst hsecond e.weight
    exact (ih fun e' he' => hnodes ▸ hl e' he').trans hnodes

/-! ## Edges -/

/-- Two nodes have a weight exactly if an edge is between them. -/
theorem isSome_weight?_iff : (g.weight? a b).isSome ↔ ∃ e ∈ g.edges, e.joins a b = true := by
  rw [weight?, Option.isSome_map, List.find?_isSome]

/-- Adding an edge increases the one that is between its ends, or puts it behind the others. -/
theorem edges_addEdge (g : WeightedGraph α) (h : a ≠ b ∧ 0 < w) :
    (g.addEdge a b w).edges =
      if (g.weight? a b).isSome then g.edges.map (increase a b w)
      else g.edges ++ [orient ((g.nodes.insert a).insert b) a b w] := by
  have hany : g.edges.any (·.joins a b) = (g.weight? a b).isSome := by
    rw [Bool.eq_iff_iff, isSome_weight?_iff, List.any_eq_true]
  rw [addEdge, if_pos h, hany]
  dsimp only
  split <;> rfl

/-- An edge between two nodes in their order that is not there yet is added at the end, if it has a
positive weight. -/
theorem edges_addEdge_of_precedes (h : g.nodes.Precedes a b)
    (hnew : ∀ e ∈ g.edges, e.joins a b = false) (w : Float) :
    (g.addEdge a b w).edges = g.edges ++ [WeightedEdge.mk a b w].filter (0 < ·.weight) := by
  obtain ⟨ha, hb, hab⟩ := h.mem
  obtain ⟨i, j, hi, hj, hlt⟩ := h
  have hany : g.edges.any (·.joins a b) = false :=
    List.any_eq_false.2 fun e he => Bool.eq_false_iff.1 (hnew e he)
  by_cases hw : 0 < w
  · have horient : orient ((g.nodes.insert a).insert b) a b w = ⟨a, b, w⟩ := by
      rw [OrderedSet.insert_of_mem ha, OrderedSet.insert_of_mem hb]
      simp only [orient, hi, hj, Nat.le_of_lt hlt, if_true]
    simp [addEdge, hab, hw, hany, horient]
  · rw [addEdge, if_neg fun h => hw h.2, List.filter_cons_of_neg (by simpa using hw),
      List.filter_nil, List.append_nil]

/-- **The edges of a list that are between different pairs of nodes, in their order.** Those of
positive weight are added at the end. -/
theorem edges_addEdges {l : List (WeightedEdge α)}
    (hl : l.Pairwise fun e e' => e.joins e'.first e'.second = false)
    (hends : ∀ e ∈ l, g.nodes.Precedes e.first e.second)
    (hnew : ∀ e ∈ g.edges, ∀ e' ∈ l, e.joins e'.first e'.second = false) :
    (g.addEdges l).edges = g.edges ++ l.filter (0 < ·.weight) := by
  induction l generalizing g with
  | nil => simp [addEdges]
  | cons e l ih =>
    obtain ⟨hhead, htail⟩ := List.pairwise_cons.1 hl
    obtain ⟨he, hends⟩ := List.forall_mem_cons.1 hends
    have hnodes : (g.addEdge e.first e.second e.weight).nodes = g.nodes :=
      nodes_addEdge_of_mem he.mem.1 he.mem.2.1 e.weight
    have hedges := edges_addEdge_of_precedes he (fun e' he' => hnew e' he' e List.mem_cons_self)
      e.weight
    rw [addEdges, List.foldl_cons]
    refine (ih htail (hnodes ▸ hends) fun e₁ he₁ e₂ he₂ => ?_).trans ?_
    · rw [hedges, List.mem_append] at he₁
      rcases he₁ with he₁ | he₁
      · exact hnew e₁ he₁ e₂ (List.mem_cons_of_mem e he₂)
      · obtain rfl := List.mem_singleton.1 (List.mem_of_mem_filter he₁)
        exact hhead e₂ he₂
    · rw [hedges, List.append_assoc, ← List.filter_append, List.singleton_append]

/-! ## Well-formed graphs -/

/-- Both ends of every edge are nodes, the first one earlier than the second, and no two edges are
between the same nodes. -/
structure WellFormed (g : WeightedGraph α) : Prop where
  /-- The ends of an edge have positions, and the first end is the earlier one. -/
  ends_lt : ∀ e ∈ g.edges, ∃ i j,
    g.nodes.position? e.first = some i ∧ g.nodes.position? e.second = some j ∧ i < j
  /-- No two edges are between the same nodes. -/
  edges_pairwise : g.edges.Pairwise fun e e' => e.joins e'.first e'.second = false

theorem wellFormed_empty : (∅ : WeightedGraph α).WellFormed where
  ends_lt := nofun
  edges_pairwise := .nil

/-- Edges that were between nodes still are when nodes are added. -/
theorem WellFormed.ends_lt_insert (h : g.WellFormed) {e : WeightedEdge α} (he : e ∈ g.edges)
    (a : α) : ∃ i j, (g.nodes.insert a).position? e.first = some i ∧
      (g.nodes.insert a).position? e.second = some j ∧ i < j := by
  obtain ⟨i, j, hi, hj, hlt⟩ := h.ends_lt e he
  exact ⟨i, j, OrderedSet.position?_insert hi a, OrderedSet.position?_insert hj a, hlt⟩

theorem WellFormed.addNode (h : g.WellFormed) (a : α) : (g.addNode a).WellFormed where
  ends_lt _ he := h.ends_lt_insert he a
  edges_pairwise := h.edges_pairwise

/-- An edge with its ends in node order has the earlier node first. -/
theorem orient_ends_lt {nodes : OrderedSet α} (ha : a ∈ nodes) (hb : b ∈ nodes) (hab : a ≠ b)
    (w : Float) : ∃ i j, nodes.position? (orient nodes a b w).first = some i ∧
      nodes.position? (orient nodes a b w).second = some j ∧ i < j := by
  obtain ⟨i, hi⟩ := OrderedSet.exists_position? ha
  obtain ⟨j, hj⟩ := OrderedSet.exists_position? hb
  have hij : i ≠ j := fun h => hab ((OrderedSet.position?_inj hi hj).1 h)
  simp only [orient, hi, hj]
  split
  · exact ⟨i, j, hi, hj, by omega⟩
  · exact ⟨j, i, hj, hi, by omega⟩

/-- **Adding an edge keeps a graph well-formed.** -/
theorem WellFormed.addEdge (h : g.WellFormed) (a b : α) (w : Float) :
    (g.addEdge a b w).WellFormed := by
  unfold WeightedGraph.addEdge
  by_cases hadd : a ≠ b ∧ 0 < w
  swap
  · rwa [if_neg hadd]
  rw [if_pos hadd]
  set nodes := (g.nodes.insert a).insert b with hnodes
  have hold : ∀ e ∈ g.edges, ∃ i j,
      nodes.position? e.first = some i ∧ nodes.position? e.second = some j ∧ i < j :=
    fun e he => (h.addNode a).ends_lt_insert he b
  by_cases hany : g.edges.any (·.joins a b) = true
  · -- the edge is there already, and only its weight changes
    simp only [hany, if_true]
    refine ⟨fun e he => ?_, List.pairwise_map.2 (h.edges_pairwise.imp fun {e e'} hee' => ?_)⟩
    · obtain ⟨e', he', rfl⟩ := List.mem_map.1 he
      rw [first_increase, second_increase]
      exact hold e' he'
    · rw [first_increase, second_increase, joins_increase]
      exact hee'
  · simp only [hany, if_false, Bool.false_eq_true]
    have hnew : ∀ e ∈ g.edges, e.joins a b = false := fun e he =>
      Bool.eq_false_iff.2 fun hj => hany (List.any_eq_true.2 ⟨e, he, hj⟩)
    have hself : (orient nodes a b w).joins a b = true := by
      rw [joins_orient]
      exact joins_iff.2 (.inl ⟨rfl, rfl⟩)
    refine ⟨fun e he => ?_, List.pairwise_append.2
      ⟨h.edges_pairwise, List.pairwise_singleton _ _, fun e he e' he' => ?_⟩⟩
    · rcases List.mem_append.1 he with he | he
      · exact hold e he
      · obtain rfl := List.mem_singleton.1 he
        exact orient_ends_lt (by simp [hnodes]) (by simp [hnodes]) hadd.1 w
    · obtain rfl := List.mem_singleton.1 he'
      rw [← joins_congr hself]
      exact hnew e he

theorem WellFormed.addNodes (h : g.WellFormed) (l : List α) : (g.addNodes l).WellFormed := by
  induction l generalizing g with
  | nil => exact h
  | cons a l ih => exact ih (h.addNode a)

theorem WellFormed.addEdges (h : g.WellFormed) (l : List (WeightedEdge α)) :
    (g.addEdges l).WellFormed := by
  induction l generalizing g with
  | nil => exact h
  | cons e l ih => exact ih (h.addEdge e.first e.second e.weight)

/-! ## Histories -/

theorem ofSteps_concat (steps : List (Step α)) (s : Step α) :
    ofSteps (steps ++ [s]) = (ofSteps steps).apply s := by
  rw [ofSteps, List.foldl_append]
  rfl

/-- **However a graph grows, it is well-formed.** -/
theorem wellFormed_ofSteps (steps : List (Step α)) : (ofSteps steps).WellFormed := by
  induction steps using List.reverseRecOn with
  | nil => exact wellFormed_empty
  | append_singleton steps s ih =>
    rw [ofSteps_concat]
    cases s with
    | node a => exact ih.addNode a
    | edge a b w => exact ih.addEdge a b w

/-! ## Weights of well-formed graphs -/

/-- **The weight of an edge is the weight between its ends.** -/
theorem WellFormed.weight?_of_mem (h : g.WellFormed) {e : WeightedEdge α} (he : e ∈ g.edges) :
    g.weight? e.first e.second = some e.weight := by
  obtain ⟨before, after, hedges⟩ := List.append_of_mem he
  have hpairwise := h.edges_pairwise
  rw [hedges, List.pairwise_append] at hpairwise
  have hfind : g.edges.find? (·.joins e.first e.second) = some e := by
    refine List.find?_eq_some_iff_append.2
      ⟨joins_iff.2 (.inl ⟨rfl, rfl⟩), before, after, hedges, fun e' he' => ?_⟩
    rw [hpairwise.2.2 e' he' e List.mem_cons_self]
    rfl
  rw [weight?, hfind]
  rfl

/-- Only two different nodes have a weight. -/
theorem WellFormed.mem_of_isSome_weight? (h : g.WellFormed) (hsome : (g.weight? a b).isSome) :
    a ∈ g.nodes ∧ b ∈ g.nodes ∧ a ≠ b := by
  obtain ⟨e, he, hj⟩ := isSome_weight?_iff.1 hsome
  have hends : g.nodes.Precedes e.first e.second := h.ends_lt e he
  obtain ⟨hfirst, hsecond, hne⟩ := hends.mem
  rcases joins_iff.1 hj with ⟨rfl, rfl⟩ | ⟨rfl, rfl⟩
  · exact ⟨hfirst, hsecond, hne⟩
  · exact ⟨hsecond, hfirst, hne.symm⟩

/-- A value that is no node has no weight to any other. -/
theorem WellFormed.weight?_eq_none (h : g.WellFormed) (hnew : a ∉ g.nodes ∨ b ∉ g.nodes) :
    g.weight? a b = none := by
  rw [← Option.not_isSome_iff_eq_none]
  intro hsome
  obtain ⟨ha, hb, -⟩ := h.mem_of_isSome_weight? hsome
  exact hnew.elim (· ha) (· hb)

/-- A node has no weight to itself. -/
theorem WellFormed.weight?_self (h : g.WellFormed) (a : α) : g.weight? a a = none := by
  rw [← Option.not_isSome_iff_eq_none]
  intro hsome
  obtain ⟨-, -, hne⟩ := h.mem_of_isSome_weight? hsome
  exact hne rfl

/-- **One edge is between any two nodes that have a weight**, and none between the others. -/
theorem WellFormed.countP_joins (h : g.WellFormed) (a b : α) :
    g.edges.countP (·.joins a b) = if (g.weight? a b).isSome then 1 else 0 := by
  have hpairwise := h.edges_pairwise
  split
  next hsome =>
    obtain ⟨e, he, hj⟩ := isSome_weight?_iff.1 hsome
    obtain ⟨before, after, hedges⟩ := List.append_of_mem he
    rw [hedges, List.pairwise_append, List.pairwise_cons] at hpairwise
    obtain ⟨-, ⟨hafter, -⟩, hbefore⟩ := hpairwise
    have hbefore' : before.countP (·.joins a b) = 0 := by
      refine List.countP_eq_zero.2 fun e' he' => ?_
      rw [joins_congr hj, hbefore e' he' e List.mem_cons_self]
      exact Bool.false_ne_true
    have hafter' : after.countP (·.joins a b) = 0 := by
      refine List.countP_eq_zero.2 fun e' he' => ?_
      rw [joins_congr hj, joins_ends_comm, hafter e' he']
      exact Bool.false_ne_true
    rw [hedges, List.countP_append, List.countP_cons, if_pos hj, hbefore', hafter']
  next hnone =>
    rw [isSome_weight?_iff] at hnone
    exact List.countP_eq_zero.2 fun e he hj => hnone ⟨e, he, hj⟩

end WeightedGraph

end ModuleRecovery
