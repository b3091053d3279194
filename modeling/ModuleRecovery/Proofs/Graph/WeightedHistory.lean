import ModuleRecovery.Proofs.Graph.WeightedTable

set_option relaxedAutoImplicit false
set_option autoImplicit false

/-!
# Weighted graphs and their histories

A weighted graph that grew step by step from nothing is told by its history. An edge counts if its
ends differ and its weight is positive; any other is rejected and changes nothing. The nodes are the
values that the remaining steps mention, the weight between two nodes is the sum of what was added
between them, in the order of the steps, and the edges are listed in the order in which their ends
were first joined.

## Main definitions

* `ModuleRecovery.WeightedGraph.Step.mentions` — the nodes a step mentions.
* `ModuleRecovery.WeightedGraph.Step.weightBetween?` — the weight a step adds between two nodes.
* `ModuleRecovery.WeightedGraph.firstStep` — when the ends of an edge were first joined.

## Main results

* `ModuleRecovery.WeightedGraph.nodes_ofSteps`, `ModuleRecovery.WeightedGraph.weight?_ofSteps` — the
  nodes and the weights of a graph by its history.
* `ModuleRecovery.WeightedGraph.zero_lt_of_weight?_ofSteps` — the weights are positive.
* `ModuleRecovery.WeightedGraph.pairwise_firstStep` — the order of the edges.
* `ModuleRecovery.WeightedGraph.ofSteps_denotation` — the weights and the edges of a graph by its
  history, also if it is kept in tables.
-/

universe u

namespace ModuleRecovery

variable {α : Type u} [DecidableEq α] {a b : α} {w : Float}

open Number WeightedEdge

namespace WeightedGraph

variable {g : WeightedGraph α} {steps : List (Step α)}

/-- The nodes that a step mentions, in order. An edge that is rejected mentions none. -/
def Step.mentions : Step α → List α
  | .node a => [a]
  | .edge a b w => if a ≠ b ∧ 0 < w then [a, b] else []

/-- The weight that a step adds between `a` and `b`: that of an edge between two different ends,
which are `a` and `b` in either order, if it is positive. -/
def Step.weightBetween? (a b : α) : Step α → Option Float
  | .node _ => none
  | .edge c d w =>
    if (c ≠ d ∧ 0 < w) ∧ (WeightedEdge.mk c d w).joins a b = true then some w else none

/-- The sum of some numbers, added from left to right. -/
def sum? : List Float → Option Float
  | [] => none
  | w :: ws => some (ws.foldl (· + ·) w)

/-- How many steps come before the first one that adds weight between the ends of an edge. -/
def firstStep (steps : List (Step α)) (e : WeightedEdge α) : Nat :=
  steps.findIdx fun s => (s.weightBetween? e.first e.second).isSome

/-! ## Rejected edges -/

/-- **An edge between equal ends, or one whose weight is no number or not positive, changes
nothing.** -/
theorem addEdge_of_rejected (g : WeightedGraph α) (h : a = b ∨ w.isNaN = true ∨ w ≤ 0) :
    g.addEdge a b w = g :=
  if_neg fun hadd => WeightTable.not_rejected_iff.2 hadd h

/-! ## Nodes -/

theorem nodes_apply (g : WeightedGraph α) (s : Step α) :
    (g.apply s).nodes = s.mentions.foldl OrderedSet.insert g.nodes := by
  cases s with
  | node a => rfl
  | edge a b w =>
    by_cases h : a ≠ b ∧ 0 < w
    · rw [Step.mentions, if_pos h]
      exact nodes_addEdge g h
    · rw [Step.mentions, if_neg h, apply, addEdge, if_neg h]
      rfl

/-- **The nodes are the values mentioned, in order of first mention.** -/
theorem nodes_ofSteps (steps : List (Step α)) :
    (ofSteps steps).nodes = .ofList (steps.flatMap Step.mentions) := by
  induction steps using List.reverseRecOn with
  | nil => rfl
  | append_singleton steps s ih =>
    rw [ofSteps_concat, nodes_apply, ih, List.flatMap_append, List.flatMap_singleton,
      OrderedSet.ofList_append]

/-! ## Weights -/

/-- A step adds to the weight between two nodes, or leaves it. -/
theorem weight?_apply (g : WeightedGraph α) (s : Step α) (a b : α) :
    (g.apply s).weight? a b =
      (s.weightBetween? a b).elim (g.weight? a b)
        fun w => some (((g.weight? a b).map (· + w)).getD w) := by
  cases s with
  | node c => rfl
  | edge c d w =>
    rw [apply, weight?_addEdge, Step.weightBetween?]
    by_cases h : (c ≠ d ∧ 0 < w) ∧ (WeightedEdge.mk c d w).joins a b = true
    · have hsame : g.weight? c d = g.weight? a b := weight?_of_joins h.2 g
      rw [if_pos h, if_pos h, hsame]
      rfl
    · rw [if_neg h, if_neg h]
      rfl

theorem sum?_concat (ws : List Float) (w : Float) :
    sum? (ws ++ [w]) = some (((sum? ws).map (· + w)).getD w) := by
  cases ws with
  | nil => rfl
  | cons v ws => simp [sum?]

/-- **The weight between two nodes is the sum of what the steps add between them**, in their
order. -/
theorem weight?_ofSteps (steps : List (Step α)) (a b : α) :
    (ofSteps steps).weight? a b = sum? (steps.filterMap (Step.weightBetween? a b)) := by
  induction steps using List.reverseRecOn with
  | nil => rfl
  | append_singleton steps s ih =>
    rw [ofSteps_concat, weight?_apply, ih, List.filterMap_append]
    cases hs : s.weightBetween? a b with
    | none => simp [hs]
    | some w => simp [hs, sum?_concat]

/-- A step adds weight between `a` and `b` if it is an edge between them, they differ, and the
weight is positive. -/
theorem weightBetween?_eq_some_iff {s : Step α} :
    s.weightBetween? a b = some w ↔ a ≠ b ∧ 0 < w ∧ (s = .edge a b w ∨ s = .edge b a w) := by
  cases s with
  | node c => simp [Step.weightBetween?]
  | edge c d v =>
    simp only [Step.weightBetween?, Option.ite_none_right_eq_some, Option.some.injEq,
      Step.edge.injEq, joins_iff]
    constructor
    · rintro ⟨⟨⟨hcd, hv⟩, ⟨rfl, rfl⟩ | ⟨rfl, rfl⟩⟩, rfl⟩
      · exact ⟨hcd, hv, .inl ⟨rfl, rfl, rfl⟩⟩
      · exact ⟨hcd.symm, hv, .inr ⟨rfl, rfl, rfl⟩⟩
    · rintro ⟨hab, hw, ⟨rfl, rfl, rfl⟩ | ⟨rfl, rfl, rfl⟩⟩
      · exact ⟨⟨⟨hab, hw⟩, .inl ⟨rfl, rfl⟩⟩, rfl⟩
      · exact ⟨⟨⟨hab.symm, hw⟩, .inr ⟨rfl, rfl⟩⟩, rfl⟩

theorem isSome_sum?_iff {ws : List Float} : (sum? ws).isSome ↔ ∃ w, w ∈ ws := by
  cases ws with
  | nil => simp [sum?]
  | cons w ws => simp [sum?]

/-- **Two nodes have a weight exactly if some step adds one.** -/
theorem isSome_weight?_ofSteps_iff : ((ofSteps steps).weight? a b).isSome ↔
    ∃ s ∈ steps, (s.weightBetween? a b).isSome := by
  rw [weight?_ofSteps, isSome_sum?_iff]
  simp only [List.mem_filterMap, Option.isSome_iff_exists]
  constructor
  · rintro ⟨w, s, hs, hw⟩
    exact ⟨s, hs, w, hw⟩
  · rintro ⟨s, hs, w, hw⟩
    exact ⟨w, s, hs, hw⟩

/-- **Two nodes have a weight exactly if they differ and some step is an edge of positive weight
between them**, in either order. -/
theorem isSome_weight?_ofSteps_iff_edge : ((ofSteps steps).weight? a b).isSome ↔
    a ≠ b ∧ ∃ w, 0 < w ∧ (.edge a b w ∈ steps ∨ .edge b a w ∈ steps) := by
  rw [isSome_weight?_ofSteps_iff]
  simp only [Option.isSome_iff_exists, weightBetween?_eq_some_iff]
  constructor
  · rintro ⟨s, hs, w, hab, hw, rfl | rfl⟩
    · exact ⟨hab, w, hw, .inl hs⟩
    · exact ⟨hab, w, hw, .inr hs⟩
  · rintro ⟨hab, w, hw, hs | hs⟩
    · exact ⟨_, hs, w, hab, hw, .inl rfl⟩
    · exact ⟨_, hs, w, hab, hw, .inr rfl⟩

theorem zero_lt_of_sum?_eq_some {ws : List Float} (hpos : ∀ w ∈ ws, 0 < w)
    (h : sum? ws = some w) : 0 < w := by
  induction ws using List.reverseRecOn generalizing w with
  | nil => cases h
  | append_singleton ws v ih =>
    obtain ⟨hws, hv⟩ := List.forall_mem_append.1 hpos
    have hv : 0 < v := hv v (List.mem_singleton_self v)
    rw [sum?_concat] at h
    obtain rfl := Option.some.inj h
    cases hsum : sum? ws with
    | none => exact hv
    | some u => exact zero_lt_add (ih hws hsum) hv

/-- **A weight is positive.** -/
theorem zero_lt_of_weight?_ofSteps (h : (ofSteps steps).weight? a b = some w) : 0 < w := by
  rw [weight?_ofSteps] at h
  refine zero_lt_of_sum?_eq_some (fun v hv => ?_) h
  obtain ⟨s, -, hs⟩ := List.mem_filterMap.1 hv
  exact (weightBetween?_eq_some_iff.1 hs).2.1

/-! ## The list of edges -/

@[simp] theorem firstStep_increase (steps : List (Step α)) (e : WeightedEdge α) :
    firstStep steps (increase a b w e) = firstStep steps e := by
  rw [firstStep, first_increase, second_increase]
  rfl

/-- An edge of the graph was first added by one of the steps, and later steps do not matter. -/
theorem firstStep_concat_of_mem {e : WeightedEdge α} (he : e ∈ (ofSteps steps).edges)
    (s : Step α) :
    firstStep (steps ++ [s]) e = firstStep steps e ∧ firstStep steps e < steps.length := by
  have hlt : firstStep steps e < steps.length := by
    rw [firstStep, List.findIdx_lt_length, ← isSome_weight?_ofSteps_iff,
      (wellFormed_ofSteps steps).weight?_of_mem he]
    rfl
  exact ⟨List.findIdx_append.trans (if_pos hlt), hlt⟩

/-- An edge without weight so far is first added by the next step at the earliest. -/
theorem length_le_firstStep_concat {e : WeightedEdge α}
    (h : (ofSteps steps).weight? e.first e.second = none) (s : Step α) :
    steps.length ≤ firstStep (steps ++ [s]) e := by
  have hle : steps.length ≤ firstStep steps e := by
    rw [← Nat.not_lt, firstStep, List.findIdx_lt_length, ← isSome_weight?_ofSteps_iff, h]
    exact Bool.false_ne_true
  exact (Nat.le_add_left _ _).trans
    (List.findIdx_append.trans (if_neg (Nat.not_lt.2 hle))).ge

/-- **The edges are listed in order of first insertion.** -/
theorem pairwise_firstStep (steps : List (Step α)) :
    (ofSteps steps).edges.Pairwise fun e e' => firstStep steps e < firstStep steps e' := by
  induction steps using List.reverseRecOn with
  | nil => exact .nil
  | append_singleton steps s ih =>
    have hold : (ofSteps steps).edges.Pairwise fun e e' =>
        firstStep (steps ++ [s]) e < firstStep (steps ++ [s]) e' := by
      refine ih.imp_of_mem fun he he' hlt => ?_
      rwa [(firstStep_concat_of_mem he s).1, (firstStep_concat_of_mem he' s).1]
    rw [ofSteps_concat]
    cases s with
    | node a => exact hold
    | edge a b w =>
      rw [apply]
      by_cases h : a ≠ b ∧ 0 < w
      swap
      · rwa [addEdge, if_neg h]
      rw [edges_addEdge _ h]
      split
      -- an edge that is there keeps its place, and a new one was joined by no step before
      next => exact List.pairwise_map.2 (hold.imp fun hlt => by simpa using hlt)
      next hnone =>
        refine List.pairwise_append.2 ⟨hold, List.pairwise_singleton _ _, fun e he e' he' => ?_⟩
        obtain rfl := List.mem_singleton.1 he'
        obtain ⟨hfirst, hlt⟩ := firstStep_concat_of_mem he (.edge a b w)
        rw [hfirst]
        refine hlt.trans_le (length_le_firstStep_concat ?_ _)
        have hjoins :
            (orient (((ofSteps steps).nodes.insert a).insert b) a b w).joins a b = true := by
          rw [joins_orient]
          exact joins_iff.2 (.inl ⟨rfl, rfl⟩)
        rw [weight?_of_joins hjoins]
        simpa using hnone

/-! ## The whole graph -/

/-- **A weighted graph is told by its history.** The weight between two nodes does not depend on
their order. It is there exactly if they differ and some step is an edge of positive weight between
them; it is the sum of these weights, added in the order of the steps, and positive itself. An edge
between equal ends, or one whose weight is no number or not positive, changes nothing, and the nodes
are the values that the other steps mention. The edges are listed once for each two nodes that have
a weight, with this weight, the earlier node first, and in order of first insertion; as many are
counted as are listed. If the graph is kept in three tables, these tell the same nodes, weights and
edges: each key in the order of insertion has its two nodes and its weight.

**Proof sketch.** A step adds to the weight of one pair of nodes or to none, so the weights are
collected from the history. The keys of the tables are the positions of the ends; a node keeps its
position when others are added, so a key always stands for the same two nodes. -/
theorem ofSteps_denotation (steps : List (Step α)) :
    let g := ofSteps steps
    let t := WeightTable.ofSteps steps
    (∀ a b, g.weight? a b = g.weight? b a) ∧
    (∀ a, g.weight? a a = none) ∧
    (∀ a b, (g.weight? a b).isSome ↔
      a ≠ b ∧ ∃ w, 0 < w ∧ (.edge a b w ∈ steps ∨ .edge b a w ∈ steps)) ∧
    (∀ a b, g.weight? a b = sum? (steps.filterMap (Step.weightBetween? a b))) ∧
    (∀ a b w, g.weight? a b = some w → 0 < w) ∧
    (∀ a b w, a = b ∨ w.isNaN = true ∨ w ≤ 0 → g.addEdge a b w = g ∧ t.addEdge a b w = t) ∧
    g.nodes.toList = (steps.flatMap Step.mentions).eraseDups ∧
    (∀ a b, g.edges.countP (·.joins a b) = if (g.weight? a b).isSome then 1 else 0) ∧
    (∀ e ∈ g.edges,
      g.weight? e.first e.second = some e.weight ∧ g.nodes.Precedes e.first e.second) ∧
    g.edges.Pairwise (fun e e' => firstStep steps e < firstStep steps e') ∧
    g.edgeCount = g.edges.length ∧
    (t.nodes = g.nodes ∧ (∀ a b, t.weight? a b = g.weight? a b) ∧
      t.order.map t.edge? = g.edges.map some ∧ t.order.length = g.edgeCount) := by
  intro g t
  have hg : g.WellFormed := wellFormed_ofSteps steps
  have ht : t.IsTableOf g := WeightTable.isTableOf_ofSteps steps
  have hrejected : ∀ a b w, a = b ∨ w.isNaN = true ∨ w ≤ 0 →
      g.addEdge a b w = g ∧ t.addEdge a b w = t := fun a b w h =>
    ⟨addEdge_of_rejected g h, if_pos h⟩
  have hnodes : g.nodes.toList = (steps.flatMap Step.mentions).eraseDups := by
    rw [nodes_ofSteps, OrderedSet.toList_ofList]
  have hedges : ∀ e ∈ g.edges,
      g.weight? e.first e.second = some e.weight ∧ g.nodes.Precedes e.first e.second :=
    fun e he => ⟨hg.weight?_of_mem he, hg.ends_lt e he⟩
  exact ⟨weight?_comm g, hg.weight?_self, fun a b => isSome_weight?_ofSteps_iff_edge,
    weight?_ofSteps steps, fun a b w => zero_lt_of_weight?_ofSteps, hrejected, hnodes,
    hg.countP_joins, hedges, pairwise_firstStep steps, rfl,
    ⟨ht.nodes_eq, ht.weight?_eq hg, ht.map_edge?_order hg, ht.order_eq.length_eq.symm⟩⟩

end WeightedGraph

end ModuleRecovery
