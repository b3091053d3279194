import Mathlib.Logic.Function.Iterate
import ModuleRecovery.Proofs.Clustering.Shape

set_option relaxedAutoImplicit false
set_option autoImplicit false

/-!
# The greedy procedure on trees

Clustering keeps, with every tree, the positions of its items, and looks their similarities up
in a flat table. Here is the procedure as it is described: on a list of trees alone, with the
similarities asked for at the leaves, the greatest and the least number of a list where
clustering makes a pass that starts from an infinity, and a search through the pairs of
positions in lexical order where clustering keeps a best pair. Both find the same dendrogram.

## Main definitions

* `ModuleRecovery.Linkage.ofValues` — the greatest, the least or the mean of some numbers.
* `ModuleRecovery.treeSimilarity` — the similarity of two trees, from their leaves.
* `ModuleRecovery.firstMostSimilar?` — the first pair of positions of the greatest similarity.
* `ModuleRecovery.mergeFirst` — one round on a list of trees.
* `ModuleRecovery.greedyTrees` — all rounds.

## Main results

* `ModuleRecovery.mergeFirst_map_node` — a round of clustering is a round on the trees.
* `ModuleRecovery.iterate_mergeFirst_map_node` — so are all rounds.
* `ModuleRecovery.greedyTrees_eq_toList_cluster` — clustering is the greedy procedure.
-/

universe u

namespace ModuleRecovery

open Number

variable {α : Type u}

/-- The linkage value of the similarities across two trees: the greatest, the least, or the
mean of them, added up in the order of the list. -/
def Linkage.ofValues : Linkage → List Float → Float
  | single, xs => xs.max?.getD 0
  | complete, xs => xs.min?.getD 0
  | average, xs => xs.foldl (· + ·) 0 / Float.ofNat xs.length

/-- The similarities across two trees: for each leaf of the left tree, those of all leaves of
the right tree. -/
def similaritiesAcross (s : α → α → Float) (l r : Dendrogram α) : List Float :=
  (l.leaves.product r.leaves).map fun p => s p.1 p.2

/-- The similarity of two trees. -/
def treeSimilarity (linkage : Linkage) (s : α → α → Float) (l r : Dendrogram α) : Float :=
  clampUnit (linkage.ofValues (similaritiesAcross s l r))

/-- The pairs of increasing positions of a list of length `n`, in lexical order. -/
def positionPairs (n : Nat) : List (Fin n × Fin n) :=
  ((List.finRange n).product (List.finRange n)).filter fun p => p.1 < p.2

/-- The similarity of the trees at two positions. -/
def similarityAt (linkage : Linkage) (s : α → α → Float) (ts : List (Dendrogram α))
    (p : Fin ts.length × Fin ts.length) : Float :=
  treeSimilarity linkage s (ts.get p.1) (ts.get p.2)

/-- The lexically first pair of positions whose similarity no other pair exceeds. -/
def firstMostSimilar? (linkage : Linkage) (s : α → α → Float) (ts : List (Dendrogram α)) :
    Option (Fin ts.length × Fin ts.length) :=
  (positionPairs ts.length).find? fun p =>
    (positionPairs ts.length).all fun q =>
      similarityAt linkage s ts q ≤ similarityAt linkage s ts p

/-- One round: the list without the two most similar trees, followed by their merge. -/
def mergeFirst (linkage : Linkage) (s : α → α → Float) (ts : List (Dendrogram α)) :
    List (Dendrogram α) :=
  match firstMostSimilar? linkage s ts with
  | some (i, j) =>
    (ts.eraseIdx j).eraseIdx i ++
      [(ts.get i).merge (ts.get j) (1 - similarityAt linkage s ts (i, j))]
  | none => ts

/-- The greedy procedure: a tree for every different item, and one round for each but one. -/
def greedyTrees [DecidableEq α] (items : List α) (f : α → α → Float) (linkage : Linkage) :
    List (Dendrogram α) :=
  (mergeFirst linkage (pairSimilarity items f))^[items.eraseDups.length - 1]
    (items.eraseDups.map .leaf)

/-! ## The similarity of two trees -/

theorem inUnit_treeSimilarity (linkage : Linkage) (s : α → α → Float) (l r : Dendrogram α) :
    InUnit (treeSimilarity linkage s l r) :=
  inUnit_clampUnit _

/-- The greatest number of a list, and the number that a pass from an infinity ends with, stand
for the same rational number. They may be different zeros. -/
theorem exact_max {xs : List Float} (hne : xs ≠ []) (hxs : ∀ x ∈ xs, InUnit x) :
    ∃ y ∈ xs, xs.max? = some y ∧ exact y = exact (xs.foldl greater negativeInfinity) := by
  have hfg := firstGreatest_greater hne hxs
  match xs, hne with
  | x :: xs, _ =>
    have hpick : ∀ y ∈ x :: xs, ∀ z ∈ x :: xs, (max y z = y ∧ exact z ≤ exact y) ∨
        (max y z = z ∧ exact y ≤ exact z) := by
      intro y hy z hz
      have hle := (hxs y hy).le_iff (hxs z hz)
      rw [show max y z = if y ≤ z then z else y from rfl]
      split
      next h => exact .inr ⟨rfl, hle.1 h⟩
      next h => exact .inl ⟨rfl, (not_le.1 (mt hle.2 h)).le⟩
    obtain ⟨hmem, hmax⟩ := greatest_foldl x xs hpick
    exact ⟨_, hmem, List.max?_cons', le_antisymm (hfg.le hmem) (hmax _ hfg.mem)⟩

/-- The same for the least number of a list. -/
theorem exact_min {xs : List Float} (hne : xs ≠ []) (hxs : ∀ x ∈ xs, InUnit x) :
    ∃ y ∈ xs, xs.min? = some y ∧ exact y = exact (xs.foldl lesser positiveInfinity) := by
  have hfg := firstGreatest_lesser hne hxs
  match xs, hne with
  | x :: xs, _ =>
    have hpick : ∀ y ∈ x :: xs, ∀ z ∈ x :: xs, (min y z = y ∧ -exact z ≤ -exact y) ∨
        (min y z = z ∧ -exact y ≤ -exact z) := by
      intro y hy z hz
      have hle := (hxs y hy).le_iff (hxs z hz)
      rw [show min y z = if y ≤ z then y else z from rfl]
      split
      next h => exact .inl ⟨rfl, neg_le_neg (hle.1 h)⟩
      next h => exact .inr ⟨rfl, neg_le_neg (not_le.1 (mt hle.2 h)).le⟩
    obtain ⟨hmem, hmin⟩ := greatest_foldl x xs hpick
    exact ⟨_, hmem, List.min?_cons',
      neg_injective (le_antisymm (hfg.le hmem) (hmin _ hfg.mem))⟩

/-- The linkage value stands for the same rational number as the one that clustering computes. -/
theorem exact_clampUnit_ofValues (linkage : Linkage) {xs : List Float} (hne : xs ≠ [])
    (hxs : ∀ x ∈ xs, InUnit x) :
    exact (clampUnit (linkage.ofValues xs)) = exact (clampUnit (linkage.combine xs)) := by
  cases linkage with
  | single =>
    obtain ⟨y, hy, hmax, heq⟩ := exact_max hne hxs
    rw [Linkage.ofValues, Linkage.combine, hmax, Option.getD_some,
      clampUnit_of_inUnit (hxs y hy),
      clampUnit_of_inUnit (hxs _ (firstGreatest_greater hne hxs).mem), heq]
  | complete =>
    obtain ⟨y, hy, hmin, heq⟩ := exact_min hne hxs
    rw [Linkage.ofValues, Linkage.combine, hmin, Option.getD_some,
      clampUnit_of_inUnit (hxs y hy),
      clampUnit_of_inUnit (hxs _ (firstGreatest_lesser hne hxs).mem), heq]
  | average =>
    have hempty : ¬ xs.isEmpty = true := by simpa using hne
    rw [Linkage.ofValues, Linkage.combine, if_neg hempty]

section Rounds

variable {items : List α} {sims : SimilarityMatrix items.length} {s : α → α → Float}
  {cs : List (Cluster α items.length)} {linkage : Linkage}

/-- The similarities across two trees are the entries of the table at the positions of their
items, in the same order. -/
theorem IsClustering.similaritiesAcross_node (hcs : IsClustering items cs)
    (hrep : Represents items sims s) {l r : Cluster α items.length} (hl : l ∈ cs) (hr : r ∈ cs) :
    similaritiesAcross s l.node r.node =
      l.leaves.flatMap fun i => r.leaves.map fun j => sims.get i j := by
  have hleaves : ∀ c ∈ cs, c.node.leaves = c.leaves.map items.get := fun c hc => by
    rw [← Dendrogram.members_eq_leaves (hcs.mergeBuilt c hc), hcs.members_eq c hc]
  rw [similaritiesAcross, hleaves l hl, hleaves r hr, List.product, List.flatMap_map,
    List.map_flatMap]
  simp only [List.map_map, Function.comp_def, hrep.get_eq]

/-- **The similarity of two trees** stands for the number that clustering computes from the
positions of their items. -/
theorem IsClustering.exact_treeSimilarity (hcs : IsClustering items cs)
    (hrep : Represents items sims s) {l r : Cluster α items.length} (hl : l ∈ cs) (hr : r ∈ cs) :
    exact (treeSimilarity linkage s l.node r.node) =
      exact (linkage.between sims l.leaves r.leaves) := by
  rw [treeSimilarity, hcs.similaritiesAcross_node hrep hl hr, Linkage.between]
  exact exact_clampUnit_ofValues linkage
    (Linkage.across_ne_nil (hcs.leaves_ne_nil l hl) (hcs.leaves_ne_nil r hr))
    (Linkage.inUnit_of_mem_across hrep.inUnit_get)

/-! ## Rounds -/

/-- The first of the greatest pairs of a list of images. -/
theorem FirstGreatest.zipIdx_map {β γ κ : Type*} [LinearOrder κ] (value : γ → γ → κ) (g : β → γ)
    {l : List β} {x y : β} {i j : Nat}
    (h : FirstGreatest (fun p => value (g p.1.1) (g p.2.1)) (unorderedPairs l.zipIdx)
      ((x, i), (y, j))) :
    FirstGreatest (fun p => value p.1.1 p.2.1) (unorderedPairs (l.map g).zipIdx)
      ((g x, i), (g y, j)) := by
  rw [List.zipIdx_map, unorderedPairs_map]
  exact FirstGreatest.map (fun p => value p.1.1 p.2.1) (Prod.map (Prod.map g id) (Prod.map g id)) h

/-- A round merges the first of the most similar pairs of trees. -/
theorem mergeFirst_eq {ts : List (Dendrogram α)} {l r : Dendrogram α} {i j : Nat}
    (h : FirstGreatest (fun p => exact (treeSimilarity linkage s p.1.1 p.2.1))
      (unorderedPairs ts.zipIdx) ((l, i), (r, j))) :
    mergeFirst linkage s ts =
      (ts.eraseIdx j).eraseIdx i ++ [l.merge r (1 - treeSimilarity linkage s l r)] := by
  rw [unorderedPairs_zipIdx] at h
  obtain ⟨⟨p, q⟩, heq, hfg⟩ := h.exists_of_map
  simp only [Prod.mk.injEq] at heq
  obtain ⟨⟨rfl, rfl⟩, rfl, rfl⟩ := heq
  have hfind : firstMostSimilar? linkage s ts = some (p, q) := by
    refine hfg.find?_eq fun x _ => ?_
    simp only [List.all_eq_true, decide_eq_true_eq]
    exact forall₂_congr fun y _ =>
      (inUnit_treeSimilarity linkage s _ _).le_iff (inUnit_treeSimilarity linkage s _ _)
  rw [mergeFirst, hfind]
  rfl

/-- **A round of clustering is a round on the trees.**

**Proof sketch.** The two choices have the same list positions to choose from, and the
similarities agree up to the sign of zero. The height does not depend on that sign. -/
theorem mergeFirst_map_node (hcs : IsClustering items cs) (hrep : Represents items sims s)
    (h : 2 ≤ cs.length) :
    mergeFirst linkage s (cs.map Cluster.node) =
      (mergeChosen cs (closestPair linkage sims cs)).map Cluster.node := by
  have hfg := firstGreatest_closestPair linkage sims h
  generalize closestPair linkage sims cs = choice at hfg ⊢
  obtain ⟨⟨⟨l, i⟩, r, j⟩, rfl, hpair⟩ := hfg.exists_of_map
  obtain ⟨-, hi, hj⟩ := mem_unorderedPairs_zipIdx hpair.mem
  have hl : l ∈ cs := List.mem_of_getElem? hi
  have hr : r ∈ cs := List.mem_of_getElem? hj
  have htrees : FirstGreatest (fun p => exact (treeSimilarity linkage s p.1.1 p.2.1))
      (unorderedPairs (cs.map Cluster.node).zipIdx) ((l.node, i), (r.node, j)) := by
    have hnodes : FirstGreatest
        (fun p => exact (treeSimilarity linkage s p.1.1.node p.2.1.node))
        (unorderedPairs cs.zipIdx) ((l, i), (r, j)) := by
      refine hpair.congr fun p hp => ?_
      obtain ⟨-, hp1, hp2⟩ := mem_unorderedPairs_zipIdx hp
      exact (hcs.exact_treeSimilarity hrep (List.mem_of_getElem? hp1)
        (List.mem_of_getElem? hp2)).symm
    exact FirstGreatest.zipIdx_map (fun t u => exact (treeSimilarity linkage s t u)) Cluster.node
      hnodes
  have hheight : 1 - treeSimilarity linkage s l.node r.node =
      1 - linkage.between sims l.leaves r.leaves :=
    one_sub_congr (inUnit_treeSimilarity linkage s _ _) (linkage.inUnit_between sims _ _)
      (hcs.exact_treeSimilarity hrep hl hr)
  rw [mergeFirst_eq htrees, hheight, List.eraseIdx_map, List.eraseIdx_map]
  simp only [mergeChosen, hi, hj, List.map_append, List.map_cons, List.map_nil,
    clampUnit_of_inUnit (linkage.inUnit_between sims l.leaves r.leaves)]

/-- **Rounds of clustering are rounds on the trees.** -/
theorem iterate_mergeFirst_map_node (hcs : IsClustering items cs) (hrep : Represents items sims s)
    (k : Nat) (h : k + 1 ≤ cs.length) :
    (mergeFirst linkage s)^[k] (cs.map Cluster.node) =
      (mergeRounds linkage sims k cs).map Cluster.node := by
  induction k generalizing cs with
  | zero => rfl
  | succ k ih =>
    have hstep := greedyStep_closestPair linkage sims (show 2 ≤ cs.length by omega)
    have hlen := hstep.length
    rw [Function.iterate_succ_apply, mergeFirst_map_node hcs hrep (by omega), mergeRounds]
    exact ih (hstep.isClustering hcs) (by omega)

end Rounds

/-- **Clustering is the greedy procedure on trees.** Whatever the items, the similarities and
the linkage are, the procedure ends with the dendrogram that clustering finds, heights
included, and with no tree where clustering finds none.

**Proof sketch.** The clusters of a stage divide the items, so the similarities at the leaves
of two trees are those at the positions of two clusters. Each round then merges the same two
trees at the same height. -/
theorem greedyTrees_eq_toList_cluster [DecidableEq α] (items : List α) (f : α → α → Float)
    (linkage : Linkage) :
    greedyTrees items f linkage = (cluster items f linkage).toList := by
  rcases eq_or_ne items [] with rfl | hne
  · rfl
  · have hpos := List.length_pos_iff.2 (eraseDups_ne_nil hne)
    have hlen : (singletons items.eraseDups).length = items.eraseDups.length - 1 + 1 := by
      simp only [singletons, List.length_map, List.length_finRange]
      omega
    have hstart : items.eraseDups.map Dendrogram.leaf =
        (singletons items.eraseDups).map Cluster.node := by
      rw [singletons, List.map_map]
      exact (congrArg (List.map Dendrogram.leaf) (List.map_get_finRange _).symm).trans
        List.map_map
    obtain ⟨c, hc, -⟩ := exists_mergeRounds linkage (.ofList items.eraseDups f) _ hlen
    rw [cluster_eq_clusterDistinct, clusterDistinct, greedyTrees, hstart,
      iterate_mergeFirst_map_node (isClustering_singletons _) (represents_eraseDups items f) _
        hlen.ge, hc]
    rfl

end ModuleRecovery
