import ModuleRecovery.Proofs.Clustering.Shape

set_option relaxedAutoImplicit false
set_option autoImplicit false

/-!
# Complete linkage

Complete linkage measures a cluster by its two least similar items. A merge compares items
across its two sides only, and yet its height is one minus the least similarity of any two
items below it.

Every run keeps a threshold, the similarity of its last merge. No two items of one cluster are
less similar than the threshold, and any two clusters hold items, one in each, that are no more
similar than it. So the similarity of the next merge, which is the least across its two sides,
cannot exceed the threshold: it is the least similarity inside the two sides as well. The
threshold never increases, whichever of several equally similar pairs a run merges.

## Main definitions

* `ModuleRecovery.IsLeastSimilarity` — the least similarity of two different items of a list.
* `ModuleRecovery.IsLeastMerge` — a merge at the least similarity below it.
* `ModuleRecovery.CompleteLinkageInv` — what holds at every stage of a run.

## Main results

* `ModuleRecovery.CompleteLinkageInv.isLeastSimilarity_between` — the similarity of a merge.
* `ModuleRecovery.CompleteLinkageInv.step` — a merge keeps the invariant.
* `ModuleRecovery.IsGreedyTree.allMerges_complete` — every merge of every run is at the least
  similarity below it.
* `ModuleRecovery.complete_linkage_least` — the heights of the dendrogram.
-/

universe u

namespace ModuleRecovery

open Number Relation Dendrogram

variable {α : Type u} {items xs ys : List α} {sims : SimilarityMatrix items.length}
  {s : α → α → Float} {cs cs' : List (Cluster α items.length)} {l r : Cluster α items.length}
  {rest : List (Cluster α items.length)} {v m m' : Float}

/-- The least similarity of two different items of a list. -/
structure IsLeastSimilarity (s : α → α → Float) (xs : List α) (m : Float) : Prop where
  /-- Some two different items have the similarity. -/
  attained : ∃ x ∈ xs, ∃ y ∈ xs, x ≠ y ∧ s x y = m
  /-- No two different items are less similar. -/
  le : ∀ x ∈ xs, ∀ y ∈ xs, x ≠ y → m ≤ s x y

/-- A merge whose height is one minus the least similarity of the items of both sides. -/
def IsLeastMerge (s : α → α → Float) (l r : Dendrogram α) (h : Float) : Prop :=
  ∃ m, IsLeastSimilarity s (l.members ++ r.members) m ∧ h = 1 - m

/-- Two clusters hold items, one in each, that are no more similar than the threshold. -/
def Distant {n : Nat} (s : α → α → Float) (v : Float) (c d : Cluster α n) : Prop :=
  ∃ x ∈ c.node.members, ∃ y ∈ d.node.members, exact (s x y) ≤ exact v

/-- What holds at every stage of a run of complete linkage whose last merge had the similarity
`v`. -/
structure CompleteLinkageInv (items : List α) (s : α → α → Float) (v : Float)
    (cs : List (Cluster α items.length)) : Prop where
  /-- No two items of a cluster are less similar than the threshold. -/
  tight : ∀ c ∈ cs, ∀ x ∈ c.node.members, ∀ y ∈ c.node.members, x ≠ y →
    exact v ≤ exact (s x y)
  /-- Any two clusters hold items that are no more similar than the threshold. -/
  distant : cs.Pairwise (Distant s v)
  /-- Every merge so far was at the least similarity below it. -/
  merges : ∀ c ∈ cs, c.node.AllMerges (IsLeastMerge s)

/-! ## The least similarity -/

theorem IsLeastSimilarity.inUnit (h : IsLeastSimilarity s xs m) (hs : ∀ x y, InUnit (s x y)) :
    InUnit m := by
  obtain ⟨x, -, y, -, -, rfl⟩ := h.attained
  exact hs x y

/-- The least similarity of more items is no greater. -/
theorem IsLeastSimilarity.exact_le (h : IsLeastSimilarity s xs m)
    (h' : IsLeastSimilarity s ys m') (hs : ∀ x y, InUnit (s x y)) (hsub : xs ⊆ ys) :
    exact m' ≤ exact m := by
  obtain ⟨x, hx, y, hy, hxy, rfl⟩ := h.attained
  exact ((h'.inUnit hs).le_iff (hs x y)).1 (h'.le x (hsub hx) y (hsub hy) hxy)

/-- A cluster is no higher than one minus the least similarity of more items. -/
theorem IsLeastSimilarity.height_le {t : Dendrogram α} (h : IsLeastSimilarity s xs m)
    (hs : ∀ x y, InUnit (s x y)) (ht : t.MergeBuilt) (hall : t.AllMerges (IsLeastMerge s))
    (hsub : t.members ⊆ xs) : t.height ≤ 1 - m := by
  have hm := h.inUnit hs
  cases ht with
  | leaf a => exact (inUnit_zero.le_iff (inUnit_one_sub hm)).2 (inUnit_one_sub hm).nonneg
  | merge height hl hr =>
    obtain ⟨⟨m', h', rfl⟩, -, -⟩ := hall
    have hm' := h'.inUnit hs
    exact ((inUnit_one_sub hm').le_iff (inUnit_one_sub hm)).2
      (one_sub_antitone hm hm' (h'.exact_le h hs hsub))

/-! ## Similarities of clusters -/

theorem Distant.symm {n : Nat} {c d : Cluster α n} (hs : ∀ x y, s x y = s y x)
    (h : Distant s v c d) : Distant s v d c := by
  obtain ⟨x, hx, y, hy, hle⟩ := h
  exact ⟨y, hy, x, hx, hs x y ▸ hle⟩

/-- Complete linkage is the similarity of some item of one cluster and some item of the
other. -/
theorem exists_complete_between (hrep : Represents items sims s) (hcs : IsClustering items cs)
    (hl : l ∈ cs) (hr : r ∈ cs) :
    ∃ x ∈ l.node.members, ∃ y ∈ r.node.members,
      s x y = Linkage.complete.between sims l.leaves r.leaves :=
  (hcs.exists_members_iff hrep hl hr (· = _)).2 <|
    Linkage.exists_between_complete hrep.inUnit_get (hcs.leaves_ne_nil l hl)
      (hcs.leaves_ne_nil r hr)

/-- No two items of different clusters are less similar than complete linkage says. -/
theorem complete_between_le (hrep : Represents items sims s) (hcs : IsClustering items cs)
    (hl : l ∈ cs) (hr : r ∈ cs) :
    ∀ x ∈ l.node.members, ∀ y ∈ r.node.members,
      exact (Linkage.complete.between sims l.leaves r.leaves) ≤ exact (s x y) :=
  (hcs.forall_members_iff hrep hl hr (_ ≤ exact ·)).2 fun _ hi _ hj =>
    Linkage.between_complete_le hrep.inUnit_get hi hj

/-- All clusters are distant at the greatest complete linkage of two of them. -/
theorem pairwise_distant (hrep : Represents items sims s) (hcs : IsClustering items cs)
    (hgreatest : ∀ p ∈ unorderedPairs cs,
      exact (Linkage.complete.between sims p.1.leaves p.2.leaves) ≤ exact v) :
    cs.Pairwise (Distant s v) := by
  rw [pairwise_iff_unorderedPairs]
  intro p hp
  obtain ⟨h1, h2⟩ := mem_of_mem_unorderedPairs hp
  obtain ⟨x, hx, y, hy, heq⟩ := exists_complete_between hrep hcs h1 h2
  exact ⟨x, hx, y, hy, heq ▸ hgreatest p hp⟩

/-! ## The invariant -/

/-- At first no cluster has two items, and the threshold is one. -/
theorem CompleteLinkageInv.init (hs : ∀ x y, InUnit (s x y)) :
    CompleteLinkageInv items s 1 (singletons items) := by
  refine ⟨?tight, ?distant, ?merges⟩
  case tight =>
    intro c hc x hx y hy hxy
    obtain ⟨i, -, rfl⟩ := List.mem_map.1 hc
    obtain rfl := List.mem_singleton.1 hx
    exact absurd (List.mem_singleton.1 hy).symm hxy
  case distant =>
    refine List.pairwise_map.2 (List.pairwise_of_forall fun i j => ?_)
    refine ⟨items.get i, List.mem_singleton_self _, items.get j, List.mem_singleton_self _, ?_⟩
    rw [exact_one]
    exact (hs _ _).le_one
  case merges =>
    intro c hc
    obtain ⟨i, -, rfl⟩ := List.mem_map.1 hc
    exact trivial

/-- Complete linkage of two clusters does not exceed the threshold, at which they are
distant. -/
theorem CompleteLinkageInv.between_le (hrep : Represents items sims s)
    (hcs : IsClustering items cs) (hinv : CompleteLinkageInv items s v cs)
    (hperm : cs.Perm (l :: r :: rest)) :
    exact (Linkage.complete.between sims l.leaves r.leaves) ≤ exact v := by
  have hl : l ∈ cs := hperm.mem_iff.2 (by simp)
  have hr : r ∈ cs := hperm.mem_iff.2 (by simp)
  have hdistant := (hperm.pairwise_iff (Distant.symm hrep.symm)).1 hinv.distant
  obtain ⟨x, hx, y, hy, hle⟩ := List.rel_of_pairwise_cons hdistant List.mem_cons_self
  exact (complete_between_le hrep hcs hl hr x hx y hy).trans hle

/-- **Complete linkage of two clusters is the least similarity of all their items**, not only
across the two clusters. -/
theorem CompleteLinkageInv.isLeastSimilarity_between (hnd : items.Nodup)
    (hrep : Represents items sims s) (hcs : IsClustering items cs)
    (hinv : CompleteLinkageInv items s v cs) (hperm : cs.Perm (l :: r :: rest)) :
    IsLeastSimilarity s (l.node.members ++ r.node.members)
      (Linkage.complete.between sims l.leaves r.leaves) := by
  have hl : l ∈ cs := hperm.mem_iff.2 (by simp)
  have hr : r ∈ cs := hperm.mem_iff.2 (by simp)
  obtain ⟨a, ha, b, hb, hab⟩ := exists_complete_between hrep hcs hl hr
  refine ⟨⟨a, List.mem_append_left _ ha, b, List.mem_append_right _ hb, ?_, hab⟩, ?_⟩
  · rintro rfl
    exact hcs.notMem_of_perm hnd hperm List.mem_cons_self hb ha
  · intro x hx y hy hxy
    rw [(Linkage.complete.inUnit_between sims _ _).le_iff (hrep.inUnit x y)]
    have hle := hinv.between_le hrep hcs hperm
    rcases List.mem_append.1 hx with hx | hx <;> rcases List.mem_append.1 hy with hy | hy
    · exact hle.trans (hinv.tight l hl x hx y hy hxy)
    · exact complete_between_le hrep hcs hl hr x hx y hy
    · exact hrep.symm y x ▸ complete_between_le hrep hcs hl hr y hy x hx
    · exact hle.trans (hinv.tight r hr x hx y hy hxy)

/-- **A greedy step keeps the invariant**, with the similarity of the step as the new
threshold.

**Proof sketch.** The new threshold does not exceed the old one, and it is the least similarity
of the items that are joined, so every cluster stays tight. Any two clusters are distant at it,
because no two had a greater least similarity. -/
theorem CompleteLinkageInv.step (hnd : items.Nodup) (hrep : Represents items sims s)
    (hcs : IsClustering items cs) (hinv : CompleteLinkageInv items s v cs)
    (hstep : GreedyStep .complete sims cs cs') : ∃ w, CompleteLinkageInv items s w cs' := by
  obtain ⟨l, r, rest, hperm, rfl, hgreatest⟩ := hstep.exists_join
  have hl : l ∈ cs := hperm.mem_iff.2 (by simp)
  have hr : r ∈ cs := hperm.mem_iff.2 (by simp)
  have hrest : ∀ c ∈ rest, c ∈ cs := fun c hc => hperm.mem_iff.2 (by simp [hc])
  have hleast := hinv.isLeastSimilarity_between hnd hrep hcs hperm
  have hle := hinv.between_le hrep hcs hperm
  obtain ⟨hlfar, hfar⟩ := List.pairwise_cons.1
    ((hperm.pairwise_iff (Distant.symm hrep.symm)).1 (pairwise_distant hrep hcs hgreatest))
  set w := Linkage.complete.between sims l.leaves r.leaves
  have hwu : InUnit w := Linkage.complete.inUnit_between sims _ _
  refine ⟨w, ?tight, ?distant, ?merges⟩
  case tight =>
    refine List.forall_mem_append.2 ⟨fun c hc x hx y hy hxy => ?_, ?_⟩
    · exact hle.trans (hinv.tight c (hrest c hc) x hx y hy hxy)
    · rw [List.forall_mem_singleton]
      exact fun x hx y hy hxy => (hwu.le_iff (hrep.inUnit x y)).1 (hleast.le x hx y hy hxy)
  case distant =>
    refine List.pairwise_append.2 ⟨hfar.of_cons, List.pairwise_singleton _ _, fun c hc d hd => ?_⟩
    obtain ⟨x, hx, y, hy, hxy⟩ := (hlfar c (List.mem_cons_of_mem r hc)).symm hrep.symm
    rw [List.mem_singleton.1 hd]
    exact ⟨x, hx, y, List.mem_append_left _ hy, hxy⟩
  case merges =>
    refine List.forall_mem_append.2 ⟨fun c hc => hinv.merges c (hrest c hc), ?_⟩
    rw [List.forall_mem_singleton, l.node_join r hwu]
    exact ⟨⟨w, hleast, rfl⟩, hinv.merges l hl, hinv.merges r hr⟩

/-- Every run keeps the invariant. -/
theorem exists_completeLinkageInv (hnd : items.Nodup) (hrep : Represents items sims s)
    (h : ReflTransGen (GreedyStep .complete sims) (singletons items) cs) :
    ∃ v, CompleteLinkageInv items s v cs := by
  induction h with
  | refl => exact ⟨1, .init hrep.inUnit⟩
  | tail hrun hstep ih =>
    obtain ⟨v, hinv⟩ := ih
    exact hinv.step hnd hrep (isClustering_of_run hrun) hstep

/-! ## The heights -/

variable {f : α → α → Float} {root : Dendrogram α}

/-- Every merge of every run is at the least similarity of the items below it. -/
theorem IsGreedyTree.allMerges_complete (hnd : items.Nodup)
    (hrep : Represents items (.ofList items f) s) (h : IsGreedyTree items f .complete root) :
    root.AllMerges (IsLeastMerge s) := by
  obtain ⟨c, hrun, rfl⟩ := h
  obtain ⟨v, hinv⟩ := exists_completeLinkageInv hnd hrep hrun
  exact hinv.merges c (by simp)

/-- **Complete linkage measures a cluster by its two least similar items.** The height of a
merge is one minus the least similarity of any two different items below it, and no merge is
lower than one of its sides.

**Proof sketch.** Clustering is a greedy run, and a run makes every merge at the least
similarity below it. There are more items below a merge than below one of its sides, so their
least similarity is no greater. -/
theorem complete_linkage_least [DecidableEq α] {items : List α} (hne : items ≠ [])
    (f : α → α → Float) :
    ∃ root, cluster items f .complete = some root ∧
      ∀ u ∈ root.nodes, ∀ l r, u.children? = some (l, r) →
        (∃ m, IsLeastSimilarity (pairSimilarity items f) u.members m) ∧
        (∀ m, IsLeastSimilarity (pairSimilarity items f) u.members m → u.height = 1 - m) ∧
        l.height ≤ u.height ∧ r.height ≤ u.height := by
  have hs := inUnit_pairSimilarity items f
  obtain ⟨root, hroot, hgreedy⟩ := exists_cluster hne f .complete
  have hall := hgreedy.allMerges_complete (OrderedSet.nodup_eraseDups items)
    (represents_eraseDups items f)
  refine ⟨root, hroot, fun u hu l r hc => ?_⟩
  obtain ⟨h, ms, rfl⟩ := children?_eq_some_iff.1 hc
  obtain ⟨⟨m, hm, rfl⟩, hlall, hrall⟩ := hall.allMerges_of_mem_nodes hu
  obtain ⟨rfl, hl, hr⟩ : ms = l.members ++ r.members ∧ l.MergeBuilt ∧ r.MergeBuilt := by
    cases hgreedy.mergeBuilt.1.of_mem_nodes hu with
    | merge h hl hr => exact ⟨rfl, hl, hr⟩
  refine ⟨⟨m, hm⟩, fun m' hm' => ?_, ?_, ?_⟩
  · exact one_sub_congr (hm.inUnit hs) (hm'.inUnit hs) (le_antisymm
      (hm'.exact_le hm hs (List.Subset.refl _)) (hm.exact_le hm' hs (List.Subset.refl _)))
  · exact hm.height_le hs hl hlall (List.subset_append_left _ _)
  · exact hm.height_le hs hr hrall (List.subset_append_right _ _)

/-- A similarity that falls with the distance of two numbers, the lesser number asked first. -/
def closeness (a b : Nat) : Float :=
  1 - Float.ofNat (b - a) / 8

set_option maxRecDepth 4000 in
/-- Four numbers on a line are as far apart as the first and the last of them. -/
theorem complete_linkage_least_onALine :
    [0, 1, 4, 6] ≠ [] ∧ ∃ root, cluster [0, 1, 4, 6] closeness .complete = some root ∧
      IsLeastSimilarity (pairSimilarity [0, 1, 4, 6] closeness) root.members 0.25 ∧
        root.height = 1 - 0.25 := by
  obtain ⟨root, hroot, hheights⟩ :=
    complete_linkage_least (show [0, 1, 4, 6] ≠ [] by decide) closeness
  have htree : cluster [0, 1, 4, 6] closeness .complete =
      some (((leaf 0).merge (leaf 1) 0.125).merge ((leaf 4).merge (leaf 6) 0.25) 0.75) := rfl
  obtain rfl := Option.some.inj (htree.symm.trans hroot)
  obtain ⟨-, hheight, -⟩ := hheights _ (self_mem_nodes _) _ _ rfl
  have hleast : IsLeastSimilarity (pairSimilarity [0, 1, 4, 6] closeness) [0, 1, 4, 6] 0.25 :=
    ⟨⟨0, by decide, 6, by decide, by decide, rfl⟩, by decide⟩
  exact ⟨by decide, _, hroot, hleast, hheight _ hleast⟩

end ModuleRecovery
