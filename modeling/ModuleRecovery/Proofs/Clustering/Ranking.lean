import ModuleRecovery.Coupling.Scan
import ModuleRecovery.Proofs.Clustering.Shape
import ModuleRecovery.Proofs.Number.Quotients

set_option relaxedAutoImplicit false
set_option autoImplicit false

/-!
# Only the ranking of the similarities matters

Single and complete linkage only pick one of the similarities they are given, and a round of
merges only compares what they picked. So two similarity functions that rank the pairs of items
alike lead to the same merges in every round, whatever their values are; the heights of the
merges are all that may differ.

## Main definitions

* `ModuleRecovery.Dendrogram.outline` — a dendrogram without its heights.
* `ModuleRecovery.RankedAlike` — two functions rank the pairs of a list alike.
* `ModuleRecovery.SimilarityMatrix.RankedAlike` — the same for two tables.

## Main results

* `ModuleRecovery.Linkage.single_between_lt_iff`, `ModuleRecovery.Linkage.complete_between_lt_iff`
  — what it means for similarities that two clusters are less similar than two others.
* `ModuleRecovery.closestPair_eq_of_rankedAlike` — the next pair is the same.
* `ModuleRecovery.map_outline_mergeChosen` — so is the round, up to heights.
* `ModuleRecovery.map_outline_mergeRounds` — and so are all rounds.
* `ModuleRecovery.share_lt_iff` — shares of one whole are in the order of the counts.
* `ModuleRecovery.cluster_ranking` — functions that rank pairs alike lead to the same tree.
-/

universe u

namespace ModuleRecovery

open Number

variable {α : Type u}

/-! ## Without heights -/

namespace Dendrogram

/-- A dendrogram with all its heights set to zero. What is left is its shape, which side of a
merge is the left one, and the order of the members. -/
def outline : Dendrogram α → Dendrogram α
  | leaf a => leaf a
  | internal l r _ ms => internal l.outline r.outline 0 ms

@[simp] theorem members_outline (t : Dendrogram α) : t.outline.members = t.members := by
  cases t <;> rfl

@[simp] theorem outline_outline (t : Dendrogram α) : t.outline.outline = t.outline := by
  induction t with
  | leaf a => rfl
  | internal l r h ms ihl ihr => simp only [outline, ihl, ihr]

theorem outline_merge (l r : Dendrogram α) (h : Float) :
    (l.merge r h).outline = l.outline.merge r.outline 0 := by
  simp only [merge, outline, members_outline]

end Dendrogram

/-- A cluster without the heights of its merges. -/
def Cluster.outline {n : Nat} (c : Cluster α n) : Cluster α n :=
  { c with node := c.node.outline }

/-! ## Rankings -/

/-- Two similarity functions rank the pairs of a list alike, each pair in list order: after
clamping, one pair is less similar than another by the one exactly if it is by the other. -/
def RankedAlike (items : List α) (f g : α → α → Float) : Prop :=
  ∀ p ∈ unorderedPairs items, ∀ q ∈ unorderedPairs items,
    (clampUnit (f p.1 p.2) < clampUnit (f q.1 q.2) ↔
      clampUnit (g p.1 p.2) < clampUnit (g q.1 q.2))

instance (items : List α) (f g : α → α → Float) : Decidable (RankedAlike items f g) :=
  inferInstanceAs (Decidable (∀ p ∈ unorderedPairs items, ∀ q ∈ unorderedPairs items, _))

namespace SimilarityMatrix

variable {n : Nat}

/-- Two tables of numbers between zero and one rank the pairs of different positions alike. -/
structure RankedAlike (sims sims' : SimilarityMatrix n) : Prop where
  /-- The entries of the first table are in range. -/
  inUnit_left : ∀ i j, InUnit (sims.get i j)
  /-- The entries of the second table are in range. -/
  inUnit_right : ∀ i j, InUnit (sims'.get i j)
  /-- One pair is less similar than another in both tables or in none. -/
  lt_iff : ∀ i j k l, i ≠ j → k ≠ l →
    (exact (sims.get i j) < exact (sims.get k l) ↔ exact (sims'.get i j) < exact (sims'.get k l))

theorem RankedAlike.symm {sims sims' : SimilarityMatrix n} (h : RankedAlike sims sims') :
    RankedAlike sims' sims :=
  ⟨h.inUnit_right, h.inUnit_left, fun i j k l hij hkl => (h.lt_iff i j k l hij hkl).symm⟩

/-- An entry at different positions is the clamped similarity of a pair of the list, and which
pair it is does not depend on the function. -/
theorem exists_entry_eq {items : List α} {i j : Fin items.length} (hij : i ≠ j) :
    ∃ p ∈ unorderedPairs items, ∀ f, entry items f i j = clampUnit (f p.1 p.2) := by
  have hmem : ∀ {i j : Fin items.length}, i < j →
      (items.get i, items.get j) ∈ unorderedPairs items := fun {i j} h =>
    mem_unorderedPairs.2 ⟨i, j, h, by simp, by simp⟩
  rcases lt_or_gt_of_ne hij with h | h
  · exact ⟨_, hmem h, fun f => by rw [entry, if_pos h]⟩
  · exact ⟨_, hmem h, fun f => by rw [entry, if_neg h.not_gt, if_pos h]⟩

/-- Functions that rank the pairs of a list alike make tables that rank the positions alike. -/
theorem rankedAlike_ofList {items : List α} {f g : α → α → Float}
    (hfg : ModuleRecovery.RankedAlike items f g) :
    RankedAlike (ofList items f) (ofList items g) := by
  refine ⟨inUnit_get_ofList items f, inUnit_get_ofList items g, ?_⟩
  intro i j k l hij hkl
  obtain ⟨p, hp, hentry⟩ := exists_entry_eq hij
  obtain ⟨q, hq, hentry'⟩ := exists_entry_eq hkl
  rw [← (inUnit_get_ofList items f i j).lt_iff (inUnit_get_ofList items f k l),
    ← (inUnit_get_ofList items g i j).lt_iff (inUnit_get_ofList items g k l)]
  simp only [get_ofList, hentry, hentry']
  exact hfg p hp q hq

end SimilarityMatrix

/-! ## The similarity of clusters -/

namespace Linkage

variable {n : Nat} {sims sims' : SimilarityMatrix n} {a b c d : List (Fin n)}

/-- By single linkage, two clusters are less similar than two others exactly if some similarity
across the others exceeds all similarities across the two. -/
theorem single_between_lt_iff (hsims : ∀ i j, InUnit (sims.get i j)) (ha : a ≠ []) (hb : b ≠ [])
    (hc : c ≠ []) (hd : d ≠ []) :
    exact (single.between sims a b) < exact (single.between sims c d) ↔
      ∃ k ∈ c, ∃ l ∈ d, ∀ i ∈ a, ∀ j ∈ b, exact (sims.get i j) < exact (sims.get k l) := by
  constructor
  · intro hlt
    obtain ⟨k, hk, l, hl, heq⟩ := exists_between_single hsims hc hd
    refine ⟨k, hk, l, hl, fun i hi j hj => ?_⟩
    rw [heq]
    exact (le_between_single hsims hi hj).trans_lt hlt
  · rintro ⟨k, hk, l, hl, hlt⟩
    obtain ⟨i, hi, j, hj, heq⟩ := exists_between_single hsims ha hb
    rw [← heq]
    exact (hlt i hi j hj).trans_le (le_between_single hsims hk hl)

/-- By complete linkage, two clusters are less similar than two others exactly if some similarity
across the two is below all similarities across the others. -/
theorem complete_between_lt_iff (hsims : ∀ i j, InUnit (sims.get i j)) (ha : a ≠ [])
    (hb : b ≠ []) (hc : c ≠ []) (hd : d ≠ []) :
    exact (complete.between sims a b) < exact (complete.between sims c d) ↔
      ∃ i ∈ a, ∃ j ∈ b, ∀ k ∈ c, ∀ l ∈ d, exact (sims.get i j) < exact (sims.get k l) := by
  constructor
  · intro hlt
    obtain ⟨i, hi, j, hj, heq⟩ := exists_between_complete hsims ha hb
    refine ⟨i, hi, j, hj, fun k hk l hl => ?_⟩
    rw [heq]
    exact hlt.trans_le (between_complete_le hsims hk hl)
  · rintro ⟨i, hi, j, hj, hlt⟩
    obtain ⟨k, hk, l, hl, heq⟩ := exists_between_complete hsims hc hd
    rw [← heq]
    exact (between_complete_le hsims hi hj).trans_lt (hlt k hk l hl)

/-- Tables that rank positions alike rank pairs of clusters alike, in one direction. The two
clusters of a pair must have no position in common, for the ranking says nothing about a position
and itself. -/
theorem between_lt_of_rankedAlike {linkage : Linkage} (hlinkage : linkage ≠ .average)
    (hrank : sims.RankedAlike sims') (ha : a ≠ []) (hb : b ≠ []) (hc : c ≠ []) (hd : d ≠ [])
    (hab : ∀ i ∈ a, ∀ j ∈ b, i ≠ j) (hcd : ∀ k ∈ c, ∀ l ∈ d, k ≠ l)
    (h : exact (linkage.between sims a b) < exact (linkage.between sims c d)) :
    exact (linkage.between sims' a b) < exact (linkage.between sims' c d) := by
  have hlt : ∀ i ∈ a, ∀ j ∈ b, ∀ k ∈ c, ∀ l ∈ d, exact (sims.get i j) < exact (sims.get k l) →
      exact (sims'.get i j) < exact (sims'.get k l) := by
    intro i hi j hj k hk l hl
    exact (hrank.lt_iff i j k l (hab i hi j hj) (hcd k hk l hl)).1
  cases linkage with
  | single =>
    rw [single_between_lt_iff hrank.inUnit_left ha hb hc hd] at h
    rw [single_between_lt_iff hrank.inUnit_right ha hb hc hd]
    obtain ⟨k, hk, l, hl, h⟩ := h
    exact ⟨k, hk, l, hl, fun i hi j hj => hlt i hi j hj k hk l hl (h i hi j hj)⟩
  | complete =>
    rw [complete_between_lt_iff hrank.inUnit_left ha hb hc hd] at h
    rw [complete_between_lt_iff hrank.inUnit_right ha hb hc hd]
    obtain ⟨i, hi, j, hj, h⟩ := h
    exact ⟨i, hi, j, hj, fun k hk l hl => hlt i hi j hj k hk l hl (h k hk l hl)⟩
  | average => exact absurd rfl hlinkage

/-- **Tables that rank positions alike rank pairs of clusters alike**, unless the linkage adds
similarities up. -/
theorem between_lt_iff_of_rankedAlike {linkage : Linkage} (hlinkage : linkage ≠ .average)
    (hrank : sims.RankedAlike sims') (ha : a ≠ []) (hb : b ≠ []) (hc : c ≠ []) (hd : d ≠ [])
    (hab : ∀ i ∈ a, ∀ j ∈ b, i ≠ j) (hcd : ∀ k ∈ c, ∀ l ∈ d, k ≠ l) :
    exact (linkage.between sims a b) < exact (linkage.between sims c d) ↔
      exact (linkage.between sims' a b) < exact (linkage.between sims' c d) :=
  ⟨between_lt_of_rankedAlike hlinkage hrank ha hb hc hd hab hcd,
    between_lt_of_rankedAlike hlinkage hrank.symm ha hb hc hd hab hcd⟩

end Linkage

/-! ## Rounds -/

section Rounds

variable {items : List α} {sims sims' : SimilarityMatrix items.length}
  {cs ds : List (Cluster α items.length)} {linkage : Linkage}

/-- The next pair does not depend on the heights of earlier merges. -/
theorem closestPair_map_outline (linkage : Linkage) (sims : SimilarityMatrix items.length)
    (cs : List (Cluster α items.length)) :
    closestPair linkage sims (cs.map Cluster.outline) = closestPair linkage sims cs := by
  rw [closestPair, List.zipIdx_map, unorderedPairs_map, List.foldl_map]
  rfl

/-- **Tables that rank positions alike have the same next pair.**

**Proof sketch.** For both tables it is the first of the most similar pairs of clusters, and
which pair is more similar than which depends on the ranking only. -/
theorem closestPair_eq_of_rankedAlike (hlinkage : linkage ≠ .average)
    (hrank : sims.RankedAlike sims') (hcs : IsClustering items cs) (h : 2 ≤ cs.length) :
    (closestPair linkage sims cs).left = (closestPair linkage sims' cs).left ∧
      (closestPair linkage sims cs).right = (closestPair linkage sims' cs).right := by
  obtain ⟨p, heq, hp⟩ := (firstGreatest_closestPair linkage sims h).exists_of_map
  obtain ⟨q, heq', hq⟩ := (firstGreatest_closestPair linkage sims' h).exists_of_map
  have hpair : ∀ x ∈ unorderedPairs cs.zipIdx, x.1.1.leaves ≠ [] ∧ x.2.1.leaves ≠ [] ∧
      ∀ i ∈ x.1.1.leaves, ∀ j ∈ x.2.1.leaves, i ≠ j := by
    intro x hx
    have hmem : (x.1.1, x.2.1) ∈ unorderedPairs cs := by
      rw [unorderedPairs_eq_map_zipIdx]
      exact List.mem_map_of_mem hx
    obtain ⟨hl, hr⟩ := mem_of_mem_unorderedPairs hmem
    exact ⟨hcs.leaves_ne_nil _ hl, hcs.leaves_ne_nil _ hr,
      pairwise_iff_unorderedPairs.1 hcs.pairwise_disjoint _ hmem⟩
  have hranked : FirstGreatest (fun x : (Cluster α items.length × Nat) × _ × Nat =>
      exact (linkage.between sims' x.1.1.leaves x.2.1.leaves)) (unorderedPairs cs.zipIdx) p := by
    refine hp.of_lt_iff fun x hx y hy => ?_
    obtain ⟨ha, hb, hab⟩ := hpair x hx
    obtain ⟨hc, hd, hcd⟩ := hpair y hy
    exact Linkage.between_lt_iff_of_rankedAlike hlinkage hrank ha hb hc hd hab hcd
  obtain rfl := hranked.unique hq
  rw [← heq, ← heq']
  exact ⟨rfl, rfl⟩

/-- The clusters after a merge, up to heights, depend on the clusters before, up to heights, and
on which two are merged. -/
theorem map_outline_mergeChosen_outline {c d : MergeChoice} (hleft : c.left = d.left)
    (hright : c.right = d.right) :
    (mergeChosen cs c).map Cluster.outline =
      (mergeChosen (cs.map Cluster.outline) d).map Cluster.outline := by
  simp only [mergeChosen, List.getElem?_map, hleft, hright]
  cases cs[d.left]? <;> cases cs[d.right]? <;>
    simp [Cluster.outline, Dendrogram.outline_merge, List.eraseIdx_map, Function.comp_def]

/-- **A round merges the same clusters for both tables.** -/
theorem map_outline_mergeChosen (hlinkage : linkage ≠ .average)
    (hrank : sims.RankedAlike sims') (hcs : IsClustering items cs) (h : 2 ≤ cs.length)
    (hsame : cs.map Cluster.outline = ds.map Cluster.outline) :
    (mergeChosen cs (closestPair linkage sims cs)).map Cluster.outline =
      (mergeChosen ds (closestPair linkage sims' ds)).map Cluster.outline := by
  obtain ⟨hleft, hright⟩ := closestPair_eq_of_rankedAlike hlinkage hrank hcs h
  have hpair : closestPair linkage sims' cs = closestPair linkage sims' ds := by
    rw [← closestPair_map_outline, hsame, closestPair_map_outline]
  rw [map_outline_mergeChosen_outline hleft hright, hsame, hpair]
  exact (map_outline_mergeChosen_outline rfl rfl).symm

/-- **All rounds merge the same clusters for both tables.** -/
theorem map_outline_mergeRounds (hlinkage : linkage ≠ .average)
    (hrank : sims.RankedAlike sims') (hcs : IsClustering items cs) (k : Nat)
    (h : k + 1 ≤ cs.length) (hsame : cs.map Cluster.outline = ds.map Cluster.outline) :
    (mergeRounds linkage sims k cs).map Cluster.outline =
      (mergeRounds linkage sims' k ds).map Cluster.outline := by
  induction k generalizing cs ds with
  | zero => exact hsame
  | succ k ih =>
    have hstep := greedyStep_closestPair linkage sims (show 2 ≤ cs.length by omega)
    have hlen := hstep.length
    have hround := map_outline_mergeChosen hlinkage hrank hcs (by omega) hsame
    exact ih (hstep.isClustering hcs) (by omega) hround

/-- The node in front, without heights, is the node in front of the clusters without heights. -/
theorem map_outline_node (cs : List (Cluster α items.length)) :
    (cs.head?.map Cluster.node).map Dendrogram.outline =
      (cs.map Cluster.outline).head?.map Cluster.node := by
  cases cs <;> rfl

end Rounds

/-- Functions that rank the pairs of the different items alike lead to the same dendrogram, up to
heights. -/
theorem map_outline_cluster [DecidableEq α] {items : List α} {linkage : Linkage}
    (hlinkage : linkage ≠ .average) {f g : α → α → Float}
    (hfg : RankedAlike items.eraseDups f g) :
    (cluster items f linkage).map Dendrogram.outline =
      (cluster items g linkage).map Dendrogram.outline := by
  rcases eq_or_ne items [] with rfl | hne
  · rw [cluster_eq_none_iff.2 rfl, cluster_eq_none_iff.2 rfl]
  · have hpos := List.length_pos_iff.2 (eraseDups_ne_nil hne)
    have hlen : items.eraseDups.length - 1 + 1 ≤ (singletons items.eraseDups).length := by
      simp only [singletons, List.length_map, List.length_finRange]
      omega
    have hrounds := map_outline_mergeRounds hlinkage (SimilarityMatrix.rankedAlike_ofList hfg)
      (isClustering_singletons _) _ hlen rfl
    rw [cluster_eq_clusterDistinct, cluster_eq_clusterDistinct, clusterDistinct, clusterDistinct]
    simp only [map_outline_node, hrounds]

/-! ## Rescaling -/

/-- Multiplying the clamped similarities of all pairs by a positive number keeps the ranking. -/
theorem rankedAlike_of_exact_eq_mul {items : List α} {f g : α → α → Float} {c : ℚ} (hc : 0 < c)
    (h : ∀ p ∈ unorderedPairs items,
      exact (clampUnit (g p.1 p.2)) = c * exact (clampUnit (f p.1 p.2))) :
    RankedAlike items f g := by
  intro p hp q hq
  rw [(inUnit_clampUnit _).lt_iff (inUnit_clampUnit _),
    (inUnit_clampUnit _).lt_iff (inUnit_clampUnit _), h p hp, h q hq]
  exact (mul_lt_mul_iff_right₀ hc).symm

/-- A share of a whole of at most 53 digits lies between zero and one. -/
theorem inUnit_share {part whole : Nat} (hpart : part ≤ whole) (hwhole : whole < 2 ^ 53) :
    InUnit (share part whole) := by
  unfold share
  split
  next => exact inUnit_zero
  next hne => exact (exact_div_ofNat (Nat.pos_of_ne_zero hne) hpart hwhole).1

/-- **Shares of one whole are in the order of the counts.** -/
theorem share_lt_iff {part part' whole : Nat} (hpart : part ≤ whole) (hpart' : part' ≤ whole)
    (hwhole : whole < 2 ^ 53) : share part whole < share part' whole ↔ part < part' := by
  unfold share
  split
  next h0 =>
    have hlt : ¬ (0 : Float) < 0 := by decide
    exact iff_of_false hlt (by omega)
  next hne => exact div_ofNat_lt_iff (Nat.pos_of_ne_zero hne) hpart hpart' hwhole

/-- Shares of the same counts are ranked alike, whichever whole they are shares of. -/
theorem rankedAlike_share {items : List α} {counts : α → α → Nat} {n m : Nat} (hn : n < 2 ^ 53)
    (hm : m < 2 ^ 53)
    (hcounts : ∀ p ∈ unorderedPairs items, counts p.1 p.2 ≤ n ∧ counts p.1 p.2 ≤ m) :
    RankedAlike items (fun x y => share (counts x y) n) fun x y => share (counts x y) m := by
  have hcompare : ∀ k < 2 ^ 53, (∀ p ∈ unorderedPairs items, counts p.1 p.2 ≤ k) →
      ∀ p ∈ unorderedPairs items, ∀ q ∈ unorderedPairs items,
        (clampUnit (share (counts p.1 p.2) k) < clampUnit (share (counts q.1 q.2) k) ↔
          counts p.1 p.2 < counts q.1 q.2) := by
    intro k hk hle p hp q hq
    rw [clampUnit_of_inUnit (inUnit_share (hle p hp) hk),
      clampUnit_of_inUnit (inUnit_share (hle q hq) hk)]
    exact share_lt_iff (hle p hp) (hle q hq) hk
  intro p hp q hq
  rw [hcompare n hn (fun p hp => (hcounts p hp).1) p hp q hq,
    hcompare m hm (fun p hp => (hcounts p hp).2) p hp q hq]

/-- **Only the ranking of the similarities matters** for single and complete linkage. Functions
that rank the pairs of the different items alike lead to dendrograms that differ in the heights
of their merges at most: the shape, the left and right side of every merge and the order of the
members are the same, and there is no dendrogram for the one function exactly if there is none
for the other.

So rescaling changes nothing. This holds of any positive factor. It also holds of the shares that
couplings are, rounded as they are: the counts may be divided by the edges of the whole graph or
by any other number that is no smaller than they are. Up to `2 ^ 53` different counts have
different shares.

**Proof sketch.** Which of two pairs of clusters is more similar is a statement about comparisons
of items across the clusters. So in every round the same pair of clusters is the first of the most
similar ones. -/
theorem cluster_ranking [DecidableEq α] (items : List α) {linkage : Linkage}
    (hlinkage : linkage ≠ .average) :
    (∀ f g : α → α → Float, RankedAlike items.eraseDups f g →
      (cluster items f linkage).map Dendrogram.outline =
        (cluster items g linkage).map Dendrogram.outline) ∧
      (∀ (f g : α → α → Float) (c : ℚ), 0 < c →
        (∀ p ∈ unorderedPairs items.eraseDups,
          exact (clampUnit (g p.1 p.2)) = c * exact (clampUnit (f p.1 p.2))) →
        (cluster items f linkage).map Dendrogram.outline =
          (cluster items g linkage).map Dendrogram.outline) ∧
      ∀ (counts : α → α → Nat) (n m : Nat), n < 2 ^ 53 → m < 2 ^ 53 →
        (∀ p ∈ unorderedPairs items.eraseDups, counts p.1 p.2 ≤ n ∧ counts p.1 p.2 ≤ m) →
        (cluster items (fun x y => share (counts x y) n) linkage).map Dendrogram.outline =
          (cluster items (fun x y => share (counts x y) m) linkage).map Dendrogram.outline := by
  refine ⟨fun f g hfg => ?_, fun f g c hc h => ?_, fun counts n m hn hm hcounts => ?_⟩
  · exact map_outline_cluster hlinkage hfg
  · exact map_outline_cluster hlinkage (rankedAlike_of_exact_eq_mul hc h)
  · exact map_outline_cluster hlinkage (rankedAlike_share hn hm hcounts)

/-- Two edges between 1 and 2, one between 2 and 3, and one between 3 and 4. -/
def fourInARow (a b : Nat) : Nat :=
  if a + b = 3 then 2 else if b = a + 1 then 1 else 0

/-- A similarity that ranks pairs as `fourInARow` does, far out of the unit interval. -/
def fourFarApart (a b : Nat) : Float :=
  if a + b = 3 then 17 else if b = a + 1 then 0.125 else -3

/-- Numbers in a row, one of them twice: the two functions have the same tree, and so have the
shares of four, eight and seven edges. -/
theorem cluster_ranking_fourInARow :
    Linkage.complete ≠ .average ∧
      RankedAlike [1, 2, 3, 2, 4].eraseDups (fun a b => share (fourInARow a b) 4) fourFarApart ∧
      (∀ p ∈ unorderedPairs [1, 2, 3, 2, 4].eraseDups,
        exact (clampUnit (share (fourInARow p.1 p.2) 8)) =
          1 / 2 * exact (clampUnit (share (fourInARow p.1 p.2) 4))) ∧
      (∀ p ∈ unorderedPairs [1, 2, 3, 2, 4].eraseDups,
        fourInARow p.1 p.2 ≤ 4 ∧ fourInARow p.1 p.2 ≤ 7) ∧
      ∀ g ∈ [fourFarApart, fun a b => share (fourInARow a b) 8,
          fun a b => share (fourInARow a b) 7],
        (cluster [1, 2, 3, 2, 4] (fun a b => share (fourInARow a b) 4) .complete).map
            Dendrogram.outline =
          (cluster [1, 2, 3, 2, 4] g .complete).map Dendrogram.outline := by
  have hlinkage : Linkage.complete ≠ .average := by decide
  have hrank : RankedAlike [1, 2, 3, 2, 4].eraseDups (fun a b => share (fourInARow a b) 4)
      fourFarApart := by decide +kernel
  have hscale : ∀ p ∈ unorderedPairs [1, 2, 3, 2, 4].eraseDups,
      exact (clampUnit (share (fourInARow p.1 p.2) 8)) =
        1 / 2 * exact (clampUnit (share (fourInARow p.1 p.2) 4)) := by decide +kernel
  have hcounts : ∀ p ∈ unorderedPairs [1, 2, 3, 2, 4].eraseDups,
      fourInARow p.1 p.2 ≤ 4 ∧ fourInARow p.1 p.2 ≤ 7 := by decide +kernel
  obtain ⟨hranked, hscaled, hshares⟩ := cluster_ranking [1, 2, 3, 2, 4] hlinkage
  refine ⟨hlinkage, hrank, hscale, hcounts, ?_⟩
  simp only [List.forall_mem_cons, List.not_mem_nil, false_implies, implies_true, and_true]
  refine ⟨hranked _ _ hrank, hscaled _ _ (1 / 2) (by norm_num) hscale, ?_⟩
  exact hshares fourInARow 4 7 (by norm_num) (by norm_num) hcounts

/-- Four numbers, of which 1 and 3 have the similarity `x`. -/
def fourNumbers (x : Float) (a b : Nat) : Float :=
  match a, b with
  | 1, 2 => 0.9
  | 1, 3 => x
  | 3, 4 => 0.4
  | _, _ => 0.1

/-- A mean depends on more than the ranking: average linkage joins 3 to the first two numbers in
one case, and to 4 in the other. -/
example :
    RankedAlike [1, 2, 3, 4] (fourNumbers 0.8) (fourNumbers 0.5) ∧
      (cluster [1, 2, 3, 4] (fourNumbers 0.8) .average).map Dendrogram.members =
        some [4, 3, 1, 2] ∧
      (cluster [1, 2, 3, 4] (fourNumbers 0.5) .average).map Dendrogram.members =
        some [1, 2, 3, 4] := by
  decide +kernel

end ModuleRecovery
