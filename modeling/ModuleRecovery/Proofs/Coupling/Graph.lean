import ModuleRecovery.Coupling.Graph
import ModuleRecovery.Proofs.Collections.Pairs
import ModuleRecovery.Proofs.Coupling.Table
import ModuleRecovery.Proofs.Graph.Weighted
import ModuleRecovery.Proofs.Number.Quotients

set_option relaxedAutoImplicit false
set_option autoImplicit false

/-!
# The weights of the coupling graph

The coupling graph has an edge between two classes exactly if their coupling is positive. A
coupling that is not positive is clamped to zero, so after clamping the graph tells the
coupling of any two classes, if no edge counts as zero.

A coupling is a share of the edges of a method graph, and as long as a machine word can count
these edges, a share of at least one edge is positive. So an edge of the coupling graph tells that
some edge of the method graph joins the two classes.

## Main definitions

* `ModuleRecovery.couplingEdges` — the pairs of classes with their couplings.
* `ModuleRecovery.HasEdgeBetween` — some edge joins methods of two classes.

## Main results

* `ModuleRecovery.clampUnit_share` — a share that is not positive is clamped to zero.
* `ModuleRecovery.zero_lt_share_iff` — a share of at least one edge is positive.
* `ModuleRecovery.edges_couplingGraph` — the edges of the graph are the pairs with positive
  coupling.
* `ModuleRecovery.weight?_couplingGraph` — the weights of the graph are the couplings.
* `ModuleRecovery.clampUnit_weight?_couplingGraph` — the graph tells the clamped couplings.
* `ModuleRecovery.couplingGraph_denotation` — the graph of a model as a whole.
-/

namespace ModuleRecovery

open Number

/-! ## Shares -/

/-- A share is a number without a sign, or no number at all. -/
theorem isNaN_or_isNonneg_share (part whole : Nat) :
    (share part whole).isNaN = true ∨ IsNonneg (share part whole).toModel.unpack := by
  rcases Nat.eq_zero_or_pos part with rfl | hpart
  · rw [share_zero]
    exact .inr isNonneg_zero
  · unfold share
    split
    · exact .inr isNonneg_zero
    · exact isNaN_or_isNonneg_div (isPositive_ofNat hpart) (isPositive_ofNat (by omega))

/-- A share that is not positive is clamped to zero. -/
theorem clampUnit_share {part whole : Nat} (h : ¬ 0 < share part whole) :
    clampUnit (share part whole) = 0 :=
  clampUnit_eq_zero (isNaN_or_isNonneg_share part whole) h

/-- **A share of a machine word is positive exactly if it is a share of at least one.** -/
theorem zero_lt_share_iff {part whole : Nat} (hpart : part ≤ whole) (hword : whole < 2 ^ 64) :
    0 < share part whole ↔ 0 < part := by
  rcases Nat.eq_zero_or_pos part with rfl | hpos
  · rw [share_zero, inUnit_zero.lt_iff inUnit_zero]
    exact iff_of_false (lt_irrefl _) (lt_irrefl _)
  · have hwhole : 0 < whole := hpos.trans_le hpart
    rw [share, if_neg hwhole.ne']
    exact iff_of_true (zero_lt_div_ofNat hpos (hpart.trans_lt hword) hwhole hword) hpos

/-! ## The graph of a table -/

variable {table : CouplingTable} {names : List String} {a b : String}

/-- The pairs of classes with their couplings, as edges. -/
def couplingEdges (table : CouplingTable) (names : List String) : List (WeightedEdge String) :=
  (unorderedPairs names).map fun p => ⟨p.1, p.2, table.coupling p.1 p.2⟩

/-- No two pairs are between the same classes. -/
theorem pairwise_joins_couplingEdges (hnd : names.Nodup) :
    (couplingEdges table names).Pairwise fun e e' => e.joins e'.first e'.second = false := by
  rw [couplingEdges, List.pairwise_map]
  refine (pairwise_unorderedPairs hnd).imp fun {p q} hpq => Bool.eq_false_iff.2 fun hj => ?_
  rcases WeightedEdge.joins_iff.1 hj with ⟨h1, h2⟩ | ⟨h1, h2⟩
  · exact hpq.1 (Prod.ext h1 h2)
  · exact hpq.2 (Prod.ext h1 h2)

/-- The coupling graph has the given names as its nodes. -/
theorem nodes_couplingGraph (table : CouplingTable) (names : List String) :
    (couplingGraph table names).nodes = .ofList names := by
  rw [couplingGraph, WeightedGraph.nodes_addEdges_of_mem, WeightedGraph.nodes_addNodes_empty]
  intro e he
  obtain ⟨p, hp, rfl⟩ := List.mem_map.1 he
  obtain ⟨hfirst, hsecond⟩ := mem_of_mem_unorderedPairs hp
  rw [WeightedGraph.nodes_addNodes_empty, OrderedSet.mem_ofList, OrderedSet.mem_ofList]
  exact ⟨hfirst, hsecond⟩

/-- The coupling graph is well-formed. -/
theorem wellFormed_couplingGraph (table : CouplingTable) (names : List String) :
    (couplingGraph table names).WellFormed :=
  (WeightedGraph.wellFormed_empty.addNodes names).addEdges _

/-- Classes that are all different stand in the graph in their order. -/
theorem pairwise_precedes_couplingGraph (hnd : names.Nodup) :
    names.Pairwise (couplingGraph table names).nodes.Precedes := by
  have h := (OrderedSet.ofList names).pairwise_precedes
  rwa [OrderedSet.toList_ofList_of_nodup hnd, ← nodes_couplingGraph table] at h

/-- **The edges of the graph are the pairs with positive coupling**, in the order of the pairs. -/
theorem edges_couplingGraph (hnd : names.Nodup) :
    (couplingGraph table names).edges = (couplingEdges table names).filter (0 < ·.weight) := by
  have hnodes : (couplingGraph table names).nodes =
      ((∅ : WeightedGraph String).addNodes names).nodes := by
    rw [nodes_couplingGraph, WeightedGraph.nodes_addNodes_empty]
  have hstart : ((∅ : WeightedGraph String).addNodes names).edges = [] :=
    WeightedGraph.edges_addNodes ∅ names
  refine (WeightedGraph.edges_addEdges (pairwise_joins_couplingEdges hnd) ?_ ?_).trans ?_
  · intro e he
    obtain ⟨p, hp, rfl⟩ := List.mem_map.1 he
    rw [← hnodes]
    exact pairwise_iff_unorderedPairs.1 (pairwise_precedes_couplingGraph hnd) p hp
  · rw [hstart]
    exact nofun
  · rw [hstart, List.nil_append]

/-- **The edges are in the lexical order of their ends.** -/
theorem pairwise_lex_edges_couplingGraph (hnd : names.Nodup) :
    let precedes := (couplingGraph table names).nodes.Precedes
    (couplingGraph table names).edges.Pairwise fun e e' =>
      Prod.Lex precedes precedes (e.first, e.second) (e'.first, e'.second) := by
  intro precedes
  rw [edges_couplingGraph hnd, couplingEdges]
  refine List.Pairwise.filter _ (List.pairwise_map.2 ?_)
  exact pairwise_lex_unorderedPairs (pairwise_precedes_couplingGraph hnd)

/-- **The weights of the coupling graph are the couplings**, as far as they are positive. -/
theorem weight?_couplingGraph (hnd : names.Nodup) (ha : a ∈ names) (hb : b ∈ names)
    (hab : a ≠ b) :
    (couplingGraph table names).weight? a b =
      if 0 < table.coupling a b then some (table.coupling a b) else none := by
  have hpair : ∀ a b, (a, b) ∈ unorderedPairs names → a ≠ b →
      (couplingGraph table names).weight? a b =
        if 0 < table.coupling a b then some (table.coupling a b) else none := fun a b hmem hab =>
    WeightedGraph.weight?_addEdges (pairwise_joins_couplingEdges hnd) (List.mem_map_of_mem hmem)
      hab (by simp)
  rcases mem_unorderedPairs_of_ne ha hb hab with hmem | hmem
  · exact hpair a b hmem hab
  · rw [WeightedGraph.weight?_comm, table.coupling_comm]
    exact hpair b a hmem hab.symm

/-- **Two classes have a weight exactly if they are different and their coupling is positive**, and
then it is the coupling. -/
theorem weight?_couplingGraph_eq_some_iff (hnd : names.Nodup) {w : Float} :
    (couplingGraph table names).weight? a b = some w ↔
      (a ∈ names ∧ b ∈ names ∧ a ≠ b ∧ 0 < table.coupling a b) ∧ w = table.coupling a b := by
  constructor
  · intro h
    obtain ⟨ha, hb, hab⟩ := (wellFormed_couplingGraph table names).mem_of_isSome_weight?
      (Option.isSome_iff_exists.2 ⟨w, h⟩)
    rw [nodes_couplingGraph, OrderedSet.mem_ofList] at ha hb
    rw [weight?_couplingGraph hnd ha hb hab, Option.ite_none_right_eq_some] at h
    obtain ⟨hpos, hw⟩ := h
    exact ⟨⟨ha, hb, hab, hpos⟩, (Option.some.inj hw).symm⟩
  · rintro ⟨⟨ha, hb, hab, hpos⟩, rfl⟩
    rw [weight?_couplingGraph hnd ha hb hab, if_pos hpos]

/-- **The coupling graph tells the clamped couplings** of the classes, zero for those without
an edge. -/
theorem clampUnit_weight?_couplingGraph (hnd : names.Nodup) (ha : a ∈ names) (hb : b ∈ names)
    (hab : a ≠ b) :
    clampUnit (((couplingGraph table names).weight? a b).getD 0) =
      clampUnit (table.coupling a b) := by
  rw [weight?_couplingGraph hnd ha hb hab]
  split
  next => rfl
  next hpos =>
    rw [Option.getD_none, clampUnit_of_inUnit inUnit_zero]
    exact (clampUnit_share hpos).symm

/-! ## The graph of a model -/

variable {g : Digraph String} {resolver : OwnerResolver}

/-- Some edge has the classes named `a` and `b` as the owners of its two ends, in either order. -/
def HasEdgeBetween (resolver : OwnerResolver) (g : Digraph String) (a b : String) : Prop :=
  ∃ e ∈ g.edges, (resolveOwner? resolver e.1 = some a ∧ resolveOwner? resolver e.2 = some b) ∨
    (resolveOwner? resolver e.1 = some b ∧ resolveOwner? resolver e.2 = some a)

/-- The scan counts an edge between two classes exactly if there is one. -/
theorem hasEdgeBetween_iff :
    HasEdgeBetween resolver g a b ↔ 0 < (edgeOwners resolver g).countP (isBetween a b) := by
  simp only [HasEdgeBetween, ← ownersOfEdge?_eq_some, edgeOwners, List.countP_pos_iff,
    List.mem_filterMap, isBetween, Bool.or_eq_true, Bool.and_eq_true, decide_eq_true_eq]
  constructor
  · rintro ⟨e, he, h | h⟩
    · exact ⟨_, ⟨e, he, h⟩, .inl ⟨rfl, rfl⟩⟩
    · exact ⟨_, ⟨e, he, h⟩, .inr ⟨rfl, rfl⟩⟩
  · rintro ⟨o, ⟨e, he, h⟩, ⟨rfl, rfl⟩ | ⟨rfl, rfl⟩⟩
    · exact ⟨e, he, .inl h⟩
    · exact ⟨e, he, .inr h⟩

/-- **The coupling of two classes is positive exactly if some edge is between them.** -/
theorem zero_lt_coupling_iff (hab : a ≠ b) (hword : g.edges.length < 2 ^ 64) :
    0 < (CouplingTable.ofGraph resolver g).coupling a b ↔ HasEdgeBetween resolver g a b := by
  have hlen : (edgeOwners resolver g).length ≤ g.edges.length := List.length_filterMap_le _ _
  rw [CouplingTable.coupling, CouplingTable.ofGraph, CouplingTable.edgesBetween_ofOwners hab,
    CouplingTable.resolvedEdges_ofOwners,
    zero_lt_share_iff List.countP_le_length (hlen.trans_lt hword), hasEdgeBetween_iff]

/-- **What the coupling graph of a model and a method graph stands for.** Its nodes are the resolved
names of the classes, in order of first occurrence. Two names have a weight exactly if they are
different nodes and some edge of the method graph has them as its two owners; the weight is then
the coupling that a scan of all edges finds, in either order of the names. Every such pair has one
edge, which carries this weight and has the earlier node first, and the edges are in the lexical
order of the positions of their ends. The method graph may be any graph whose edges a machine word
can count.

**Proof sketch.** The pairs of different names are all different, so none of them adds to the
weight of another, and they come in the lexical order of their positions. A share of at least one
edge among a machine word of edges is not rounded to zero, so no pair that some edge joins is
dropped. -/
theorem couplingGraph_denotation (g : Digraph String) (classes : List ClassRecord)
    (hword : g.edges.length < 2 ^ 64) :
    let resolver := OwnerResolver.ofClasses .lastRegistered classes
    let graph := couplingGraphOfClasses g classes
    let precedes := graph.nodes.Precedes
    graph.nodes.toList = (classes.map ClassRecord.resolvedName).eraseDups ∧
    (∀ a b, (graph.weight? a b).isSome ↔
      a ∈ graph.nodes ∧ b ∈ graph.nodes ∧ a ≠ b ∧ HasEdgeBetween resolver g a b) ∧
    (∀ a b w, graph.weight? a b = some w →
      graph.weight? b a = some w ∧ w = couplingByScan g resolver a b) ∧
    (∀ a b, graph.edges.countP (·.joins a b) = if (graph.weight? a b).isSome then 1 else 0) ∧
    (∀ e ∈ graph.edges,
      graph.weight? e.first e.second = some e.weight ∧ precedes e.first e.second) ∧
    graph.edges.Pairwise fun e e' =>
      Prod.Lex precedes precedes (e.first, e.second) (e'.first, e'.second) := by
  intro resolver graph precedes
  have hnd : (classNames classes).toList.Nodup := (classNames classes).nodup
  have hformed : graph.WellFormed := wellFormed_couplingGraph _ _
  have hnodes : graph.nodes = classNames classes :=
    (nodes_couplingGraph _ _).trans (OrderedSet.ofList_toList _)
  have hweight : ∀ {a b w}, graph.weight? a b = some w ↔ _ :=
    weight?_couplingGraph_eq_some_iff hnd
  refine ⟨?_, fun a b => ?_, fun a b w h => ⟨?_, ?_⟩, hformed.countP_joins,
    fun e he => ⟨hformed.weight?_of_mem he, hformed.ends_lt e he⟩,
    pairwise_lex_edges_couplingGraph hnd⟩
  · rw [hnodes]
    exact OrderedSet.toList_ofList _
  · rw [hnodes, Option.isSome_iff_exists]
    constructor
    · rintro ⟨w, hw⟩
      obtain ⟨⟨ha, hb, hab, hpos⟩, -⟩ := hweight.1 hw
      exact ⟨ha, hb, hab, (zero_lt_coupling_iff hab hword).1 hpos⟩
    · rintro ⟨ha, hb, hab, hjoined⟩
      exact ⟨_, hweight.2 ⟨⟨ha, hb, hab, (zero_lt_coupling_iff hab hword).2 hjoined⟩, rfl⟩⟩
  · rw [WeightedGraph.weight?_comm, h]
  · exact (hweight.1 h).2.trans (CouplingTable.coupling_ofGraph g resolver a b)

/-- Calls between two classes in both directions, inside one of them, and from a third class to a
printer that no class owns. -/
def twoWayGraph : Digraph String :=
  (∅ : Digraph String).addEdges
    [("shop.Price.of()", "shop.Cart.total()"), ("shop.Cart.total()", "shop.Price.of()"),
      ("shop.Cart.total()", "shop.Cart.sum()"), ("shop.Stock.count()", "[EXT] print()")]

/-- The three classes of that graph, one of them recorded twice. -/
def twoWayModel : List ClassRecord :=
  ["shop.Cart", "shop.Stock", "shop.Price", "shop.Cart"].map ClassRecord.ofQualifiedName

set_option maxRecDepth 4000 in
/-- The two calls between the cart and the price make one edge, whose weight is found in either
order, and the stock has none. -/
theorem couplingGraph_denotation_twoWayModel :
    let graph := couplingGraphOfClasses twoWayGraph twoWayModel
    twoWayGraph.edges.length < 2 ^ 64 ∧
      graph.nodes.toList = ["shop.Cart", "shop.Stock", "shop.Price"] ∧
      (∃ w, graph.weight? "shop.Cart" "shop.Price" = some w ∧
        graph.weight? "shop.Price" "shop.Cart" = some w) ∧
      graph.weight? "shop.Cart" "shop.Stock" = none ∧
      graph.edges.countP (·.joins "shop.Cart" "shop.Price") = 1 := by
  intro graph
  have hword : twoWayGraph.edges.length < 2 ^ 64 := by decide +kernel
  obtain ⟨hnodes, hsome, hweight, honce, -⟩ :=
    couplingGraph_denotation twoWayGraph twoWayModel hword
  have hnames : graph.nodes.toList = ["shop.Cart", "shop.Stock", "shop.Price"] :=
    hnodes.trans (by decide +kernel)
  have hmem : ∀ a ∈ ["shop.Cart", "shop.Stock", "shop.Price"], a ∈ graph.nodes :=
    fun a ha => OrderedSet.mem_def.2 (hnames ▸ ha)
  have hjoined : HasEdgeBetween (.ofClasses .lastRegistered twoWayModel) twoWayGraph
      "shop.Cart" "shop.Price" := by
    unfold HasEdgeBetween
    decide +kernel
  have hapart : ¬ HasEdgeBetween (.ofClasses .lastRegistered twoWayModel) twoWayGraph
      "shop.Cart" "shop.Stock" := by
    unfold HasEdgeBetween
    decide +kernel
  have hpair : (graph.weight? "shop.Cart" "shop.Price").isSome :=
    (hsome _ _).2 ⟨hmem _ (by decide), hmem _ (by decide), by decide, hjoined⟩
  obtain ⟨w, hw⟩ := Option.isSome_iff_exists.1 hpair
  refine ⟨hword, hnames, ⟨w, hw, (hweight _ _ w hw).1⟩, ?_, ?_⟩
  · exact Option.not_isSome_iff_eq_none.1 fun h => hapart ((hsome _ _).1 h).2.2.2
  · exact (honce _ _).trans (if_pos hpair)

end ModuleRecovery
