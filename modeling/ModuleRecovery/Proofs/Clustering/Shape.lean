import Mathlib.Data.List.Nodup
import ModuleRecovery.Proofs.Clustering.Agglomerate

set_option relaxedAutoImplicit false
set_option autoImplicit false

/-!
# The shape of a dendrogram

Whatever the similarities are, clustering makes a dendrogram with one leaf for every item of
the list and one merge less, and each merge records the items below it. The rounds of merges
never ask for a cluster or a similarity that is not there.

## Main definitions

* `ModuleRecovery.RoundInRange` — what a round of merges asks for is there.

## Main results

* `ModuleRecovery.IsClustering.roundInRange` — a round on any division of the items.
* `ModuleRecovery.cluster_congr` — the dendrogram depends on clamped similarities only.
* `ModuleRecovery.cluster_shape` — the shape of the dendrogram.
-/

universe u

namespace ModuleRecovery

open Dendrogram Relation

variable {α : Type u} {items : List α} {f : α → α → Float} {linkage : Linkage}
  {cs : List (Cluster α items.length)}

/-- What a round of merges asks for is there: the two clusters to remove, and the similarities
of the items of any two clusters in the flat table. -/
structure RoundInRange (items : List α) (f : α → α → Float) (linkage : Linkage)
    (cs : List (Cluster α items.length)) : Prop where
  /-- The cluster removed first is in the list. -/
  right_lt : (closestPair linkage (.ofList items f) cs).right < cs.length
  /-- The cluster removed next is in the rest of the list, at the place it had before. -/
  left_lt : (closestPair linkage (.ofList items f) cs).left <
    (closestPair linkage (.ofList items f) cs).right
  /-- The two positions of a similarity differ, and it is found in the flat table. -/
  lookup : ∀ p ∈ unorderedPairs cs, ∀ i ∈ p.1.leaves, ∀ j ∈ p.2.leaves, i ≠ j ∧
    (SimilarityMatrix.ofList items f).values.toList[i.val * items.length + j.val]? =
      some (SimilarityMatrix.entry items f i j)

/-- No position belongs to two clusters. -/
theorem IsClustering.pairwise_disjoint (hcs : IsClustering items cs) :
    cs.Pairwise fun c d => ∀ i ∈ c.leaves, ∀ j ∈ d.leaves, i ≠ j := by
  have hnd : (cs.flatMap Cluster.leaves).Nodup :=
    hcs.leaves_perm.symm.nodup (List.nodup_finRange _)
  refine (List.nodup_flatMap.1 hnd).2.imp fun hdisj i hi j hj => ?_
  rintro rfl
  exact hdisj hi hj

/-- The similarity of two positions is found in the flat table, row by row. -/
theorem getElem?_values_ofList (f : α → α → Float) (i j : Fin items.length) :
    (SimilarityMatrix.ofList items f).values.toList[i.val * items.length + j.val]? =
      some (SimilarityMatrix.entry items f i j) := by
  rw [← SimilarityMatrix.get_ofList, SimilarityMatrix.get, Vector.getElem?_toList]
  exact Vector.getElem?_eq_getElem (SimilarityMatrix.position i j).isLt

/-- **A round of merges asks only for what is there**, as long as there are two clusters that
divide the items. -/
theorem IsClustering.roundInRange (hcs : IsClustering items cs) (h : 2 ≤ cs.length)
    (f : α → α → Float) (linkage : Linkage) : RoundInRange items f linkage cs := by
  obtain ⟨l, r, hlt, -, hr, -⟩ :=
    mem_choices (firstGreatest_closestPair linkage (.ofList items f) h).mem
  refine ⟨(List.getElem?_eq_some_iff.1 hr).1, hlt, fun p hp i hi j hj => ⟨?_, ?_⟩⟩
  · exact pairwise_iff_unorderedPairs.1 hcs.pairwise_disjoint p hp i hi j hj
  · exact getElem?_values_ofList f i j

/-- Every round that finds two clusters asks only for what is there. -/
theorem roundInRange_mergeRounds (items : List α) (f : α → α → Float) (linkage : Linkage)
    {k : Nat} (h : k + 1 < items.length) :
    (mergeRounds linkage (.ofList items f) k (singletons items)).length = items.length - k ∧
      RoundInRange items f linkage
        (mergeRounds linkage (.ofList items f) k (singletons items)) := by
  have hlen : (singletons items).length = items.length := by simp [singletons]
  obtain ⟨hrun, hrest⟩ := run_mergeRounds linkage (.ofList items f) k
    (show k + 1 ≤ (singletons items).length by omega)
  exact ⟨by omega, (isClustering_of_run hrun).roundInRange (by omega) f linkage⟩

/-! ## The dendrogram -/

/-- The dendrogram of a run has one leaf for each item. -/
theorem IsGreedyTree.leaves_perm {root : Dendrogram α} (h : IsGreedyTree items f linkage root) :
    root.leaves.Perm items := by
  obtain ⟨hbuilt, hperm⟩ := h.mergeBuilt
  rwa [← members_eq_leaves hbuilt]

variable [DecidableEq α]

/-- Clustering a list is clustering what is left of it without later repetitions. -/
theorem cluster_eq_clusterDistinct (items : List α) (f : α → α → Float) (linkage : Linkage) :
    cluster items f linkage = clusterDistinct items.eraseDups f linkage := by
  rw [cluster, OrderedSet.toList_ofList]

/-- Two functions that agree after clamping, on the different items in list order, make the same
dendrogram. -/
theorem cluster_congr {g : α → α → Float}
    (hfg : items.eraseDups.Pairwise fun x y => clampUnit (f x y) = clampUnit (g x y))
    (linkage : Linkage) : cluster items f linkage = cluster items g linkage := by
  rw [cluster_eq_clusterDistinct, cluster_eq_clusterDistinct, clusterDistinct, clusterDistinct,
    SimilarityMatrix.ofList_congr hfg]

theorem eraseDups_ne_nil {l : List α} (h : l ≠ []) : l.eraseDups ≠ [] := by
  obtain ⟨x, hx⟩ := List.exists_mem_of_ne_nil l h
  exact List.ne_nil_of_mem (List.mem_eraseDups.2 hx)

/-- Clustering a list that is not empty is a greedy run over its different items. -/
theorem exists_cluster (hne : items ≠ []) (f : α → α → Float) (linkage : Linkage) :
    ∃ root, cluster items f linkage = some root ∧
      IsGreedyTree items.eraseDups f linkage root := by
  rw [cluster_eq_clusterDistinct]
  exact exists_clusterDistinct (eraseDups_ne_nil hne) f linkage

/-- **Clustering finds nothing exactly for the empty list.** -/
theorem cluster_eq_none_iff : cluster items f linkage = none ↔ items = [] := by
  constructor
  · intro hnone
    by_contra hne
    obtain ⟨root, hroot, -⟩ := exists_cluster hne f linkage
    rw [hnone] at hroot
    cases hroot
  · rintro rfl
    rfl

/-- A dendrogram that clustering finds is that of a greedy run over the different items. -/
theorem isGreedyTree_of_cluster_eq_some {root : Dendrogram α}
    (h : cluster items f linkage = some root) :
    IsGreedyTree items.eraseDups f linkage root := by
  have hne : items ≠ [] := fun hnil => by
    rw [cluster_eq_none_iff.2 hnil] at h
    cases h
  obtain ⟨root', hroot', hgreedy⟩ := exists_cluster hne f linkage
  obtain rfl : root = root' := Option.some.inj (h.symm.trans hroot')
  exact hgreedy

/-- **The shape of a dendrogram.** Clustering finds nothing exactly for the empty list.
Otherwise every item of the list is in exactly one leaf, there is one merge less than different
items, the members of the root are the different items, and every merge records the members of
its two sides, which are its leaves from left to right. The rounds of merges ask only for
clusters and similarities that are there, and later repetitions of an item change nothing.

**Proof sketch.** The rounds are a greedy run, and every stage of such a run divides the items
among the clusters. So the dendrogram is built by merges over the different items, and a round
finds two disjoint clusters wherever it looks. -/
theorem cluster_shape (items : List α) (f : α → α → Float) (linkage : Linkage) :
    (cluster items f linkage = none ↔ items = []) ∧
      (∀ root, cluster items f linkage = some root →
        (∀ x, root.leaves.count x = if x ∈ items then 1 else 0) ∧
        root.leaves.length = items.eraseDups.length ∧
        root.mergeCount = items.eraseDups.length - 1 ∧
        root.members.Perm items.eraseDups ∧
        ∀ u ∈ root.nodes, u.members = u.leaves ∧
          ∀ l r, u.children? = some (l, r) → u.members = l.members ++ r.members) ∧
      (∀ k, k + 1 < items.eraseDups.length →
        let cs := mergeRounds linkage (.ofList items.eraseDups f) k (singletons items.eraseDups)
        cs.length = items.eraseDups.length - k ∧ RoundInRange items.eraseDups f linkage cs) ∧
      cluster items f linkage = cluster items.eraseDups f linkage := by
  refine ⟨cluster_eq_none_iff, fun root hroot => ?_, fun k hk => ?_, ?_⟩
  · have hgreedy := isGreedyTree_of_cluster_eq_some hroot
    obtain ⟨hbuilt, hmembers⟩ := hgreedy.mergeBuilt
    have hleaves := hgreedy.leaves_perm
    refine ⟨fun x => ?_, hleaves.length_eq, ?_, hmembers, fun u hu => ?_⟩
    · rw [hleaves.count_eq, (OrderedSet.nodup_eraseDups items).count]
      simp only [List.mem_eraseDups]
    · have hcount := mergeCount_add_one root
      rw [hleaves.length_eq] at hcount
      omega
    · have hu := hbuilt.of_mem_nodes hu
      exact ⟨members_eq_leaves hu, fun l r hc => hu.members_eq_append hc⟩
  · exact roundInRange_mergeRounds items.eraseDups f linkage hk
  · rw [cluster, cluster, OrderedSet.toList_ofList,
      OrderedSet.toList_ofList_of_nodup (OrderedSet.nodup_eraseDups items)]

end ModuleRecovery
