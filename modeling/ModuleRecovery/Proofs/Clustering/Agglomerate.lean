import Mathlib.Data.List.FinRange
import Mathlib.Logic.Relation
import ModuleRecovery.Clustering.Agglomerate
import ModuleRecovery.Proofs.Clustering.Dendrogram
import ModuleRecovery.Proofs.Clustering.Linkage
import ModuleRecovery.Proofs.Collections.Lists
import ModuleRecovery.Proofs.Collections.Pairs

set_option relaxedAutoImplicit false
set_option autoImplicit false

/-!
# Greedy runs of the clustering

Clustering is one run of a greedy procedure that leaves open which of several equally
similar pairs of clusters is merged. At every stage of every run the clusters divide the
items among them, and each of them is a dendrogram over its items.

## Main definitions

* `ModuleRecovery.GreedyStep` — a merge of any two clusters of the greatest similarity.
* `ModuleRecovery.IsGreedyTree` — a dendrogram that some run leads to.
* `ModuleRecovery.IsClustering` — the clusters divide the items among them.

## Main results

* `ModuleRecovery.firstGreatest_closestPair` — the next pair is the first most similar one.
* `ModuleRecovery.run_mergeRounds` — rounds of merges are a greedy run.
* `ModuleRecovery.exists_clusterDistinct` — clustering a list is a greedy run.
* `ModuleRecovery.GreedyStep.isClustering` — a merge keeps the division of the items.
* `ModuleRecovery.IsClustering.forall_members_iff`,
  `ModuleRecovery.IsClustering.exists_members_iff` — the similarities across two clusters.
-/

universe u

namespace ModuleRecovery

open Number Relation

variable {α : Type u} {n : Nat} {linkage : Linkage} {sims : SimilarityMatrix n}
  {cs cs' : List (Cluster α n)}

/-- The cluster that two clusters of the given similarity merge into. -/
def Cluster.join (l r : Cluster α n) (similarity : Float) : Cluster α n where
  node := l.node.merge r.node (1 - clampUnit similarity)
  leaves := l.leaves ++ r.leaves

theorem Cluster.node_join (l r : Cluster α n) {similarity : Float} (h : InUnit similarity) :
    (l.join r similarity).node = l.node.merge r.node (1 - similarity) := by
  rw [join, clampUnit_of_inUnit h]

/-! ## The next pair -/

/-- All choices of two clusters, in list order. -/
def choices (linkage : Linkage) (sims : SimilarityMatrix n) (cs : List (Cluster α n)) :
    List MergeChoice :=
  (unorderedPairs cs.zipIdx).map fun p =>
    ⟨p.1.2, p.2.2, linkage.between sims p.1.1.leaves p.2.1.leaves⟩

/-- A choice names two clusters in list order, and carries their similarity. -/
theorem mem_choices {c : MergeChoice} (hc : c ∈ choices linkage sims cs) :
    ∃ l r, c.left < c.right ∧ cs[c.left]? = some l ∧ cs[c.right]? = some r ∧
      c.similarity = linkage.between sims l.leaves r.leaves := by
  obtain ⟨p, hp, rfl⟩ := List.mem_map.1 hc
  obtain ⟨hlt, hl, hr⟩ := mem_unorderedPairs_zipIdx hp
  exact ⟨p.1.1, p.2.1, hlt, hl, hr, rfl⟩

/-- Any two clusters are among the choices. -/
theorem exists_choice (linkage : Linkage) (sims : SimilarityMatrix n)
    {p : Cluster α n × Cluster α n} (hp : p ∈ unorderedPairs cs) :
    ∃ c ∈ choices linkage sims cs,
      c.similarity = linkage.between sims p.1.leaves p.2.leaves := by
  rw [unorderedPairs_eq_map_zipIdx, List.mem_map] at hp
  obtain ⟨q, hq, rfl⟩ := hp
  exact ⟨_, List.mem_map_of_mem hq, rfl⟩

/-- **The next pair is the first of the most similar pairs in list order.** -/
theorem firstGreatest_closestPair (linkage : Linkage) (sims : SimilarityMatrix n)
    (h : 2 ≤ cs.length) :
    FirstGreatest (fun c : MergeChoice => exact c.similarity) (choices linkage sims cs)
      (closestPair linkage sims cs) := by
  have hunit : ∀ c ∈ choices linkage sims cs, InUnit c.similarity := by
    intro c hc
    obtain ⟨l, r, -, -, -, heq⟩ := mem_choices hc
    rw [heq]
    exact linkage.inUnit_between sims _ _
  have hfold : closestPair linkage sims cs = (choices linkage sims cs).foldl
      (fun c d => c.offer d.left d.right d.similarity) .start := by
    rw [choices, List.foldl_map]
    rfl
  have hne : choices linkage sims cs ≠ [] := by
    simpa [choices] using unorderedPairs_ne_nil (l := cs.zipIdx) (by simpa using h)
  rw [hfold]
  generalize choices linkage sims cs = ds at hunit hne
  match ds, hne with
  | d :: ds, _ =>
    have hstart : MergeChoice.start.offer d.left d.right d.similarity = d :=
      if_pos (negativeInfinity_lt (hunit d (by simp)))
    rw [List.foldl_cons, hstart]
    refine firstGreatest_foldl d ds fun x hx y hy => ?_
    exact if_congr ((hunit x hx).lt_iff (hunit y hy)) rfl rfl

/-! ## Greedy steps -/

/-- One merge of two clusters that are at least as similar as any other two. -/
inductive GreedyStep (linkage : Linkage) (sims : SimilarityMatrix n) (cs : List (Cluster α n)) :
    List (Cluster α n) → Prop where
  | merge {i j : Nat} {l r : Cluster α n} (hij : i < j) (hl : cs[i]? = some l)
      (hr : cs[j]? = some r)
      (greatest : ∀ p ∈ unorderedPairs cs,
        linkage.between sims p.1.leaves p.2.leaves ≤ linkage.between sims l.leaves r.leaves) :
      GreedyStep linkage sims cs
        (mergeChosen cs ⟨i, j, linkage.between sims l.leaves r.leaves⟩)

/-- A dendrogram that some greedy run makes of a list of items, whichever of several equally
similar pairs is merged. -/
def IsGreedyTree (items : List α) (f : α → α → Float) (linkage : Linkage)
    (root : Dendrogram α) : Prop :=
  ∃ c : Cluster α items.length,
    ReflTransGen (GreedyStep linkage (.ofList items f)) (singletons items) [c] ∧ c.node = root

/-- Merging takes two clusters out and puts their join at the end. -/
theorem mergeChosen_eq {i j : Nat} {l r : Cluster α n} (hij : i < j) (hl : cs[i]? = some l)
    (hr : cs[j]? = some r) (s : Float) :
    ∃ rest, mergeChosen cs ⟨i, j, s⟩ = rest ++ [l.join r s] ∧ cs.Perm (l :: r :: rest) := by
  refine ⟨(cs.eraseIdx j).eraseIdx i, ?_, ?_⟩
  · simp only [mergeChosen, hl, hr]
    rfl
  · have hl' : (cs.eraseIdx j)[i]? = some l := by
      rw [List.getElem?_eraseIdx_of_lt hij, hl]
    have hperm : cs.Perm (r :: l :: (cs.eraseIdx j).eraseIdx i) :=
      (perm_cons_eraseIdx hr).trans ((perm_cons_eraseIdx hl').cons r)
    exact hperm.trans (List.Perm.swap l r _)

/-- What a greedy step does: the join of two clusters takes their place, and no other two
clusters were more similar. -/
theorem GreedyStep.exists_join (h : GreedyStep linkage sims cs cs') :
    ∃ l r rest, cs.Perm (l :: r :: rest) ∧
      cs' = rest ++ [l.join r (linkage.between sims l.leaves r.leaves)] ∧
      ∀ p ∈ unorderedPairs cs, exact (linkage.between sims p.1.leaves p.2.leaves) ≤
        exact (linkage.between sims l.leaves r.leaves) := by
  cases h with
  | @merge i j l r hij hl hr greatest =>
    obtain ⟨rest, heq, hperm⟩ := mergeChosen_eq hij hl hr (linkage.between sims l.leaves r.leaves)
    refine ⟨l, r, rest, hperm, heq, fun p hp => ?_⟩
    exact ((linkage.inUnit_between sims _ _).le_iff (linkage.inUnit_between sims _ _)).1
      (greatest p hp)

/-- The merge of the first most similar pair is a greedy step. -/
theorem greedyStep_closestPair (linkage : Linkage) (sims : SimilarityMatrix n)
    (h : 2 ≤ cs.length) :
    GreedyStep linkage sims cs (mergeChosen cs (closestPair linkage sims cs)) := by
  have hfg := firstGreatest_closestPair linkage sims h
  obtain ⟨l, r, hij, hl, hr, hs⟩ := mem_choices hfg.mem
  have hgreatest : ∀ p ∈ unorderedPairs cs, linkage.between sims p.1.leaves p.2.leaves ≤
      linkage.between sims l.leaves r.leaves := by
    intro p hp
    obtain ⟨c, hc, heq⟩ := exists_choice linkage sims hp
    rw [(linkage.inUnit_between sims _ _).le_iff (linkage.inUnit_between sims _ _), ← hs, ← heq]
    exact hfg.le hc
  have hstep := GreedyStep.merge hij hl hr hgreatest
  rwa [← hs] at hstep

/-- A greedy step leaves one cluster less. -/
theorem GreedyStep.length (h : GreedyStep linkage sims cs cs') :
    cs.length = cs'.length + 1 := by
  obtain ⟨l, r, rest, hperm, rfl, -⟩ := h.exists_join
  rw [hperm.length_eq]
  simp

/-- Rounds of merges are a greedy run, as long as there are two clusters left to merge. -/
theorem run_mergeRounds (linkage : Linkage) (sims : SimilarityMatrix n) (k : Nat)
    (h : k + 1 ≤ cs.length) :
    ReflTransGen (GreedyStep linkage sims) cs (mergeRounds linkage sims k cs) ∧
      (mergeRounds linkage sims k cs).length + k = cs.length := by
  induction k generalizing cs with
  | zero => exact ⟨.refl, rfl⟩
  | succ k ih =>
    have hstep := greedyStep_closestPair linkage sims (show 2 ≤ cs.length by omega)
    have hlen := hstep.length
    obtain ⟨hrun, hrest⟩ := @ih (mergeChosen cs (closestPair linkage sims cs)) (by omega)
    exact ⟨hrun.head hstep, by rw [mergeRounds]; omega⟩

/-- The rounds of merges are a greedy run down to a single cluster. -/
theorem exists_mergeRounds (linkage : Linkage) (sims : SimilarityMatrix n) (k : Nat)
    (h : cs.length = k + 1) :
    ∃ c, mergeRounds linkage sims k cs = [c] ∧
      ReflTransGen (GreedyStep linkage sims) cs [c] := by
  obtain ⟨hrun, hlen⟩ := run_mergeRounds linkage sims k h.ge
  obtain ⟨c, heq⟩ := List.length_eq_one_iff.1 (show (mergeRounds linkage sims k cs).length = 1 by
    omega)
  exact ⟨c, heq, heq ▸ hrun⟩

/-- **Clustering a list is a greedy run**, and ends with a dendrogram unless the list is
empty. -/
theorem exists_clusterDistinct {items : List α} (hne : items ≠ []) (f : α → α → Float)
    (linkage : Linkage) :
    ∃ root, clusterDistinct items f linkage = some root ∧ IsGreedyTree items f linkage root := by
  have hlen : (singletons items).length = items.length - 1 + 1 := by
    have := List.length_pos_iff.2 hne
    simp only [singletons, List.length_map, List.length_finRange]
    omega
  obtain ⟨c, heq, hrun⟩ := exists_mergeRounds linkage (.ofList items f) _ hlen
  refine ⟨c.node, ?_, c, hrun, rfl⟩
  rw [clusterDistinct, heq]
  rfl

/-! ## The clusters divide the items -/

/-- The clusters divide the items of a list among them: no cluster is empty, every position
belongs to exactly one cluster, and the node of a cluster is built by merges and records the
items at the positions of the cluster. -/
structure IsClustering (items : List α) (cs : List (Cluster α items.length)) : Prop where
  /-- Every position belongs to exactly one cluster. -/
  leaves_perm : (cs.flatMap Cluster.leaves).Perm (List.finRange items.length)
  /-- No cluster is empty. -/
  leaves_ne_nil : ∀ c ∈ cs, c.leaves ≠ []
  /-- The nodes are built by merges. -/
  mergeBuilt : ∀ c ∈ cs, c.node.MergeBuilt
  /-- A node records the items at the positions of its cluster. -/
  members_eq : ∀ c ∈ cs, c.node.members = c.leaves.map items.get

variable {items : List α} {ds ds' : List (Cluster α items.length)}

/-- At first every item is a cluster of its own. -/
theorem isClustering_singletons (items : List α) : IsClustering items (singletons items) where
  leaves_perm := by
    rw [singletons, List.flatMap_map]
    simp
  leaves_ne_nil := by
    intro c hc
    obtain ⟨i, -, rfl⟩ := List.mem_map.1 hc
    simp
  mergeBuilt := by
    intro c hc
    obtain ⟨i, -, rfl⟩ := List.mem_map.1 hc
    exact .leaf _
  members_eq := by
    intro c hc
    obtain ⟨i, -, rfl⟩ := List.mem_map.1 hc
    rfl

/-- **A greedy step keeps the division of the items.** -/
theorem GreedyStep.isClustering {linkage : Linkage} {sims : SimilarityMatrix items.length}
    (h : GreedyStep linkage sims ds ds') (hds : IsClustering items ds) :
    IsClustering items ds' := by
  obtain ⟨l, r, rest, hperm, rfl, -⟩ := h.exists_join
  have hl : l ∈ ds := hperm.mem_iff.2 (by simp)
  have hr : r ∈ ds := hperm.mem_iff.2 (by simp)
  have hrest : ∀ c ∈ rest, c ∈ ds := fun c hc => hperm.mem_iff.2 (by simp [hc])
  refine ⟨?_, ?_, ?_, ?_⟩
  · have hflat := hperm.flatMap_right Cluster.leaves
    refine List.Perm.trans ?_ (hflat.symm.trans hds.leaves_perm)
    simpa [List.flatMap_append, Cluster.join] using
      @List.perm_append_comm _ (rest.flatMap Cluster.leaves) (l.leaves ++ r.leaves)
  · intro c hc
    rcases List.mem_append.1 hc with hc | hc
    · exact hds.leaves_ne_nil c (hrest c hc)
    · obtain rfl := List.mem_singleton.1 hc
      exact fun hnil => hds.leaves_ne_nil l hl (List.append_eq_nil_iff.1 hnil).1
  · intro c hc
    rcases List.mem_append.1 hc with hc | hc
    · exact hds.mergeBuilt c (hrest c hc)
    · obtain rfl := List.mem_singleton.1 hc
      exact .merge _ (hds.mergeBuilt l hl) (hds.mergeBuilt r hr)
  · intro c hc
    rcases List.mem_append.1 hc with hc | hc
    · exact hds.members_eq c (hrest c hc)
    · obtain rfl := List.mem_singleton.1 hc
      rw [Cluster.join, Dendrogram.members_merge, hds.members_eq l hl, hds.members_eq r hr,
        List.map_append]

/-- **Together the clusters record every item once.** -/
theorem IsClustering.members_perm (hds : IsClustering items ds) :
    (ds.flatMap fun c => c.node.members).Perm items := by
  have hmembers : (ds.flatMap fun c => c.node.members) =
      (ds.flatMap Cluster.leaves).map items.get := by
    rw [List.map_flatMap]
    exact List.flatMap_congr hds.members_eq
  have hperm := hds.leaves_perm.map items.get
  rwa [List.map_get_finRange, ← hmembers] at hperm

/-- The clusters hold all items and nothing else. -/
theorem IsClustering.mem_items_iff (hds : IsClustering items ds) {x : α} :
    x ∈ items ↔ ∃ c ∈ ds, x ∈ c.node.members := by
  rw [← hds.members_perm.mem_iff, List.mem_flatMap]

section Similarities

variable {sims : SimilarityMatrix items.length} {s : α → α → Float} {l r : Cluster α items.length}

/-- What holds of all similarities across two clusters, by positions or by items. -/
theorem IsClustering.forall_members_iff (hds : IsClustering items ds)
    (hrep : Represents items sims s) (hl : l ∈ ds) (hr : r ∈ ds) (P : Float → Prop) :
    (∀ x ∈ l.node.members, ∀ y ∈ r.node.members, P (s x y)) ↔
      ∀ i ∈ l.leaves, ∀ j ∈ r.leaves, P (sims.get i j) := by
  rw [hds.members_eq l hl, hds.members_eq r hr]
  simp only [List.forall_mem_map, hrep.get_eq]

/-- What holds of some similarity across two clusters, by positions or by items. -/
theorem IsClustering.exists_members_iff (hds : IsClustering items ds)
    (hrep : Represents items sims s) (hl : l ∈ ds) (hr : r ∈ ds) (P : Float → Prop) :
    (∃ x ∈ l.node.members, ∃ y ∈ r.node.members, P (s x y)) ↔
      ∃ i ∈ l.leaves, ∃ j ∈ r.leaves, P (sims.get i j) := by
  rw [hds.members_eq l hl, hds.members_eq r hr]
  simp only [List.mem_map, exists_exists_and_eq_and, hrep.get_eq]

end Similarities

/-- No item of a cluster is an item of another. -/
theorem IsClustering.notMem_of_perm (hds : IsClustering items ds) (hnd : items.Nodup)
    {c d : Cluster α items.length} {rest : List (Cluster α items.length)}
    (hperm : ds.Perm (c :: rest)) (hd : d ∈ rest) {x : α} (hx : x ∈ d.node.members) :
    x ∉ c.node.members := by
  have hflat := (hds.members_perm.symm.trans (hperm.flatMap_right _)).nodup hnd
  rw [List.flatMap_cons] at hflat
  intro hxc
  exact (List.nodup_append'.1 hflat).2.2 hxc (List.mem_flatMap.2 ⟨d, hd, hx⟩)

/-- A greedy run keeps the division of the items. -/
theorem isClustering_of_run {linkage : Linkage} {sims : SimilarityMatrix items.length}
    (h : ReflTransGen (GreedyStep linkage sims) (singletons items) ds) : IsClustering items ds := by
  induction h with
  | refl => exact isClustering_singletons items
  | tail _ hstep ih => exact hstep.isClustering ih

/-- The dendrogram of a run is built by merges and records every item once. -/
theorem IsGreedyTree.mergeBuilt {f : α → α → Float} {root : Dendrogram α}
    (h : IsGreedyTree items f linkage root) : root.MergeBuilt ∧ root.members.Perm items := by
  obtain ⟨c, hrun, rfl⟩ := h
  have hc := isClustering_of_run hrun
  exact ⟨hc.mergeBuilt c (by simp), by simpa using hc.members_perm⟩

end ModuleRecovery
