import ModuleRecovery.Proofs.Clustering.Agglomerate
import ModuleRecovery.Proofs.Clustering.Chain

set_option relaxedAutoImplicit false
set_option autoImplicit false

/-!
# Single linkage

Single linkage builds the max-min hierarchy of the similarities: two items are brought
together at one minus their max-min similarity, whichever of several equally similar pairs
of clusters a run merges.

Every run keeps a threshold, the similarity of its last merge. Each cluster is connected by
links that reach the threshold, and no two items of different clusters are more similar than
it. A connection between two clusters has to leave one of them, so it cannot be stronger than
the next merge; and the next merge does connect the two clusters. The threshold never
increases, so the heights never decrease.

## Main definitions

* `ModuleRecovery.IsBottleneckMerge` — a merge at the strength of its two sides.
* `ModuleRecovery.SingleLinkageInv` — what holds at every stage of a run.

## Main results

* `ModuleRecovery.SingleLinkageInv.step` — a merge keeps the invariant.
* `ModuleRecovery.IsGreedyTree.allMerges_single` — every merge of every run joins its two sides
  at their strength.
* `ModuleRecovery.single_linkage_maxmin` — the heights are those of the max-min hierarchy.
-/

universe u

namespace ModuleRecovery

open Number Relation Dendrogram

variable {α : Type u} {items : List α} {sims : SimilarityMatrix items.length}
  {s : α → α → Float} {cs cs' : List (Cluster α items.length)} {l r : Cluster α items.length}
  {rest : List (Cluster α items.length)} {v w : Float} {x y : α} {q : ℚ}

/-- A merge whose height is one minus the strength of any item of one side and any item of the
other, and that is no lower than its two sides. -/
structure IsBottleneckMerge (items : List α) (s : α → α → Float) (l r : Dendrogram α)
    (h : Float) : Prop where
  /-- The height is that of the strength across the merge. -/
  strength : ∃ v, h = 1 - v ∧ ∀ x ∈ l.members, ∀ y ∈ r.members, IsStrength items s x y v
  /-- The left side is no higher. -/
  left_le : l.height ≤ h
  /-- The right side is no higher. -/
  right_le : r.height ≤ h

/-- No item of one cluster is more similar to one of the other than the threshold. -/
def Separated {n : Nat} (s : α → α → Float) (v : Float) (c d : Cluster α n) : Prop :=
  ∀ x ∈ c.node.members, ∀ y ∈ d.node.members, exact (s x y) ≤ exact v

/-- What holds at every stage of a run of single linkage whose last merge had the similarity
`v`. -/
structure SingleLinkageInv (items : List α) (s : α → α → Float) (v : Float)
    (cs : List (Cluster α items.length)) : Prop where
  /-- The threshold is a number between zero and one. -/
  inUnit : InUnit v
  /-- Every cluster is connected at the threshold. -/
  connected : ∀ c ∈ cs, ∀ x ∈ c.node.members, ∀ y ∈ c.node.members, Linked items s (exact v) x y
  /-- Different clusters are separated at the threshold. -/
  separated : cs.Pairwise (Separated s v)
  /-- The heights are numbers between zero and one. -/
  height_inUnit : ∀ c ∈ cs, InUnit c.node.height
  /-- No cluster is higher than the last merge. -/
  height_le : ∀ c ∈ cs, exact c.node.height ≤ exact (1 - v)
  /-- Every merge so far joined its sides at their strength. -/
  merges : ∀ c ∈ cs, c.node.AllMerges (IsBottleneckMerge items s)

/-! ## Similarities of clusters -/

theorem Separated.symm {n : Nat} {c d : Cluster α n} (hs : ∀ x y, s x y = s y x)
    (h : Separated s v c d) : Separated s v d c :=
  fun y hy x hx => hs x y ▸ h x hx y hy

/-- Single linkage is the similarity of some item of one cluster and some item of the other. -/
theorem exists_between_members (hrep : Represents items sims s) (hcs : IsClustering items cs)
    (hl : l ∈ cs) (hr : r ∈ cs) :
    ∃ x ∈ l.node.members, ∃ y ∈ r.node.members,
      s x y = Linkage.single.between sims l.leaves r.leaves :=
  (hcs.exists_members_iff hrep hl hr (· = _)).2 <|
    Linkage.exists_between_single hrep.inUnit_get (hcs.leaves_ne_nil l hl) (hcs.leaves_ne_nil r hr)

/-- Two clusters are separated at their single linkage. -/
theorem separated_between (hrep : Represents items sims s) (hcs : IsClustering items cs)
    (hl : l ∈ cs) (hr : r ∈ cs) :
    Separated s (Linkage.single.between sims l.leaves r.leaves) l r :=
  (hcs.forall_members_iff hrep hl hr (exact · ≤ _)).2 fun _ hi _ hj =>
    Linkage.le_between_single hrep.inUnit_get hi hj

/-- All clusters are separated at the greatest single linkage of two of them. -/
theorem pairwise_separated (hrep : Represents items sims s) (hcs : IsClustering items cs)
    (hgreatest : ∀ p ∈ unorderedPairs cs,
      exact (Linkage.single.between sims p.1.leaves p.2.leaves) ≤ exact v) :
    cs.Pairwise (Separated s v) := by
  rw [pairwise_iff_unorderedPairs]
  intro p hp x hx y hy
  obtain ⟨h1, h2⟩ := mem_of_mem_unorderedPairs hp
  exact (separated_between hrep hcs h1 h2 x hx y hy).trans (hgreatest p hp)

/-! ## The strength across a merge -/

/-- **A connection out of a cluster is no stronger than what separates the cluster from the
others.**

**Proof sketch.** The connection leaves the cluster by some link. The other end of that link
belongs to another cluster, from which the first one is separated. -/
theorem le_of_linked_out (hnd : items.Nodup) (hcs : IsClustering items cs)
    (hperm : cs.Perm (l :: rest)) (hsep : ∀ d ∈ rest, Separated s v l d) (hr : r ∈ rest)
    (hx : x ∈ l.node.members) (hy : y ∈ r.node.members) (h : Linked items s q x y) :
    q ≤ exact v := by
  obtain ⟨a, ha, b, hb, hlink⟩ := h.exists_crossing hx (hcs.notMem_of_perm hnd hperm hr hy)
  obtain ⟨d, hd, hbd⟩ := hcs.mem_items_iff.1 hlink.right_mem
  rcases List.mem_cons.1 (hperm.mem_iff.1 hd) with rfl | hd
  · exact absurd hbd hb
  · exact hlink.le.trans (hsep d hd a ha b hbd)

/-- The similarity of the two most similar clusters is the strength of any two of their items.

**Proof sketch.** The two items that attain the similarity link the two clusters, each of
which is connected. No connection is stronger, since one of the clusters is separated from all
others. -/
theorem isStrength_across (hnd : items.Nodup) (hrep : Represents items sims s)
    (hcs : IsClustering items cs) (hperm : cs.Perm (l :: r :: rest))
    (hsep : ∀ d ∈ r :: rest, Separated s (Linkage.single.between sims l.leaves r.leaves) l d)
    (hconn : ∀ c ∈ cs, ∀ x ∈ c.node.members, ∀ y ∈ c.node.members,
      Linked items s (exact (Linkage.single.between sims l.leaves r.leaves)) x y)
    (hx : x ∈ l.node.members) (hy : y ∈ r.node.members) :
    IsStrength items s x y (Linkage.single.between sims l.leaves r.leaves) := by
  have hl : l ∈ cs := hperm.mem_iff.2 (by simp)
  have hr : r ∈ cs := hperm.mem_iff.2 (by simp)
  obtain ⟨a, ha, b, hb, hab⟩ := exists_between_members hrep hcs hl hr
  have hne : a ≠ b := by
    rintro rfl
    exact hcs.notMem_of_perm hnd hperm List.mem_cons_self hb ha
  have hlink : Link items s (exact (Linkage.single.between sims l.leaves r.leaves)) a b :=
    ⟨hcs.mem_items_iff.2 ⟨l, hl, ha⟩, hcs.mem_items_iff.2 ⟨r, hr, hb⟩, hne, by rw [hab]⟩
  refine ⟨Linkage.single.inUnit_between sims _ _, ?_, fun q hq => ?_⟩
  · exact ((hconn l hl x hx a ha).tail hlink).trans (hconn r hr b hb y hy)
  · exact le_of_linked_out hnd hcs hperm hsep List.mem_cons_self hx hy hq

/-! ## The invariant -/

/-- At first nothing is merged, and the threshold is one. -/
theorem SingleLinkageInv.init (hs : ∀ x y, InUnit (s x y)) :
    SingleLinkageInv items s 1 (singletons items) := by
  have hmem : ∀ c ∈ singletons items, ∃ i, c = ⟨.leaf (items.get i), [i]⟩ := by
    intro c hc
    obtain ⟨i, -, rfl⟩ := List.mem_map.1 hc
    exact ⟨i, rfl⟩
  refine ⟨inUnit_one, ?_, ?_, ?_, ?_, ?_⟩
  · intro c hc x hx y hy
    obtain ⟨i, rfl⟩ := hmem c hc
    obtain rfl := List.mem_singleton.1 hx
    obtain rfl := List.mem_singleton.1 hy
    exact .refl
  · refine List.pairwise_of_forall fun c d x _ y _ => ?_
    rw [exact_one]
    exact (hs x y).le_one
  · intro c hc
    obtain ⟨i, rfl⟩ := hmem c hc
    exact inUnit_zero
  · intro c hc
    obtain ⟨i, rfl⟩ := hmem c hc
    show exact 0 ≤ exact (1 - 1)
    rw [exact_zero]
    exact (inUnit_one_sub inUnit_one).nonneg
  · intro c hc
    obtain ⟨i, rfl⟩ := hmem c hc
    exact trivial

/-- **A greedy step keeps the invariant**, with the similarity of the step as the new
threshold.

**Proof sketch.** The similarity of the step is attained by two items of different clusters,
so it does not exceed the old threshold, and heights do not decrease. All clusters are
separated at it because no two were more similar. -/
theorem SingleLinkageInv.step (hnd : items.Nodup) (hrep : Represents items sims s)
    (hcs : IsClustering items cs) (hinv : SingleLinkageInv items s v cs)
    (hstep : GreedyStep .single sims cs cs') : ∃ w, SingleLinkageInv items s w cs' := by
  obtain ⟨l, r, rest, hperm, rfl, hgreatest⟩ := hstep.exists_join
  have hl : l ∈ cs := hperm.mem_iff.2 (by simp)
  have hr : r ∈ cs := hperm.mem_iff.2 (by simp)
  have hrest : ∀ c ∈ rest, c ∈ cs := fun c hc => hperm.mem_iff.2 (by simp [hc])
  obtain ⟨a, ha, b, hb, hab⟩ := exists_between_members hrep hcs hl hr
  have hsymm : ∀ (u : Float) {c d : Cluster α items.length},
      Separated s u c d → Separated s u d c :=
    fun _ _ _ => Separated.symm hrep.symm
  obtain ⟨hold, -⟩ := List.pairwise_cons.1 ((hperm.pairwise_iff (hsymm v)).1 hinv.separated)
  obtain ⟨hlsep, hsep⟩ := List.pairwise_cons.1
    ((hperm.pairwise_iff (hsymm _)).1 (pairwise_separated hrep hcs hgreatest))
  obtain ⟨hrsep, hsep⟩ := List.pairwise_cons.1 hsep
  set w := Linkage.single.between sims l.leaves r.leaves with hw
  have hwu : InUnit w := Linkage.single.inUnit_between sims _ _
  have hwv : exact w ≤ exact v := hab ▸ hold r List.mem_cons_self a ha b hb
  have hheight : ∀ c ∈ cs, exact c.node.height ≤ exact (1 - w) := fun c hc =>
    (hinv.height_le c hc).trans (one_sub_antitone hwu hinv.inUnit hwv)
  have hconn : ∀ c ∈ cs, ∀ x ∈ c.node.members, ∀ y ∈ c.node.members,
      Linked items s (exact w) x y :=
    fun c hc x hx y hy => (hinv.connected c hc x hx y hy).mono hwv
  have hacross : ∀ x ∈ l.node.members, ∀ y ∈ r.node.members, IsStrength items s x y w :=
    fun x hx y hy => isStrength_across hnd hrep hcs hperm hlsep hconn hx hy
  have hjoin := l.node_join r hwu
  have hforall : ∀ {P : Dendrogram α → Prop}, (∀ c ∈ rest, P c.node) →
      P (l.node.merge r.node (1 - w)) → ∀ c ∈ rest ++ [l.join r w], P c.node := by
    intro P h h' c hc
    rcases List.mem_append.1 hc with hc | hc
    · exact h c hc
    · rw [List.mem_singleton.1 hc, hjoin]
      exact h'
  refine ⟨w, hwu, ?connected, ?separated, ?height_inUnit, ?height_le, ?merges⟩
  case connected =>
    refine hforall (P := fun t => ∀ x ∈ t.members, ∀ y ∈ t.members, Linked items s (exact w) x y)
      (fun c hc => hconn c (hrest c hc)) fun x hx y hy => ?_
    rcases List.mem_append.1 hx with hx | hx <;> rcases List.mem_append.1 hy with hy | hy
    · exact hconn l hl x hx y hy
    · exact (hacross x hx y hy).linked
    · exact (hacross y hy x hx).linked.symm hrep.symm
    · exact hconn r hr x hx y hy
  case separated =>
    refine List.pairwise_append.2 ⟨hsep, List.pairwise_singleton _ _, fun c hc d hd x hx y hy => ?_⟩
    rw [List.mem_singleton.1 hd, hjoin] at hy
    rcases List.mem_append.1 hy with hy | hy
    · exact (hlsep c (List.mem_cons_of_mem r hc)).symm hrep.symm x hx y hy
    · exact (hrsep c hc).symm hrep.symm x hx y hy
  case height_inUnit =>
    exact hforall (P := fun t => InUnit t.height)
      (fun c hc => hinv.height_inUnit c (hrest c hc)) (inUnit_one_sub hwu)
  case height_le =>
    exact hforall (P := fun t => exact t.height ≤ exact (1 - w))
      (fun c hc => hheight c (hrest c hc)) le_rfl
  case merges =>
    have hle : ∀ c ∈ cs, c.node.height ≤ 1 - w := fun c hc =>
      ((hinv.height_inUnit c hc).le_iff (inUnit_one_sub hwu)).2 (hheight c hc)
    exact hforall (fun c hc => hinv.merges c (hrest c hc))
      ⟨⟨⟨w, rfl, hacross⟩, hle l hl, hle r hr⟩, hinv.merges l hl, hinv.merges r hr⟩

/-- Every run keeps the invariant. -/
theorem exists_singleLinkageInv (hnd : items.Nodup) (hrep : Represents items sims s)
    (h : ReflTransGen (GreedyStep .single sims) (singletons items) cs) :
    ∃ v, SingleLinkageInv items s v cs := by
  induction h with
  | refl => exact ⟨1, .init hrep.inUnit⟩
  | tail hrun hstep ih =>
    obtain ⟨v, hinv⟩ := ih
    exact hinv.step hnd hrep (isClustering_of_run hrun) hstep

/-! ## The max-min hierarchy -/

variable {f : α → α → Float} {root : Dendrogram α}

/-- Every merge of every run joins its two sides at their strength, and is no lower than
them. -/
theorem IsGreedyTree.allMerges_single (hnd : items.Nodup)
    (hrep : Represents items (.ofList items f) s) (h : IsGreedyTree items f .single root) :
    root.AllMerges (IsBottleneckMerge items s) := by
  obtain ⟨c, hrun, rfl⟩ := h
  obtain ⟨v, hinv⟩ := exists_singleLinkageInv hnd hrep hrun
  exact hinv.merges c (by simp)

/-- **Whatever a run merges first, two items come together at one minus their strength.** -/
theorem IsGreedyTree.exists_lowestJoin_single (hnd : items.Nodup)
    (hrep : Represents items (.ofList items f) s) (h : IsGreedyTree items f .single root)
    (hx : x ∈ items) (hy : y ∈ items) (hxy : x ≠ y) :
    ∃ t v, (∀ u, IsLowestJoin root x y u ↔ u = t) ∧ t.height = 1 - v ∧
      IsStrength items s x y v := by
  obtain ⟨hbuilt, hperm⟩ := h.mergeBuilt
  obtain ⟨l, r, h', hmem, huniq, hsides⟩ := exists_unique_lowestJoin hbuilt
    (hperm.symm.nodup hnd) (hperm.mem_iff.2 hx) (hperm.mem_iff.2 hy) hxy
  obtain ⟨⟨v, hv, hstrength⟩, -, -⟩ := (h.allMerges_single hnd hrep).of_mem_nodes hmem rfl
  refine ⟨l.merge r h', v, huniq, hv, ?_⟩
  rcases hsides with ⟨hxl, hyr⟩ | ⟨hyl, hxr⟩
  · exact hstrength x hxl y hyr
  · exact (hstrength y hyl x hxr).symm hrep.symm

/-- **Single linkage builds the max-min hierarchy of the similarities.** The lowest merge that
contains two different items has one minus their max-min similarity as its height. No merge is
lower than one of its sides, and these heights are the same for every greedy run, however it
chooses among equally similar pairs.

**Proof sketch.** Both the clustering and any other greedy run keep the invariant, so in each
of them the lowest merge of two items has the height of their strength, which is their max-min
similarity. -/
theorem single_linkage_maxmin [DecidableEq α] {items : List α} (hne : items ≠ [])
    (f : α → α → Float) :
    ∃ root, cluster items f .single = some root ∧
      (∀ x ∈ items, ∀ y ∈ items, x ≠ y → ∃ t, (∀ u, IsLowestJoin root x y u ↔ u = t) ∧
        (∃ m, IsBottleneck items (pairSimilarity items f) x y m) ∧
        ∀ m, IsBottleneck items (pairSimilarity items f) x y m → t.height = 1 - m) ∧
      (∀ u ∈ root.nodes, ∀ l r, u.children? = some (l, r) →
        l.height ≤ u.height ∧ r.height ≤ u.height) ∧
      ∀ root', IsGreedyTree (OrderedSet.ofList items).toList f .single root' →
        ∀ x ∈ items, ∀ y ∈ items, x ≠ y → ∀ t t', IsLowestJoin root x y t →
          IsLowestJoin root' x y t' → t.height = t'.height := by
  have hnd := (OrderedSet.ofList items).nodup
  have hrep := represents_ofList items f
  have hmem : ∀ x, x ∈ (OrderedSet.ofList items).toList ↔ x ∈ items :=
    fun x => OrderedSet.mem_toList_ofList
  have hne' : (OrderedSet.ofList items).toList ≠ [] := by
    obtain ⟨x, hx⟩ := List.exists_mem_of_ne_nil items hne
    exact List.ne_nil_of_mem ((hmem x).2 hx)
  obtain ⟨root, hroot, hgreedy⟩ := exists_clusterDistinct hne' f .single
  refine ⟨root, hroot, ?_, ?_, ?_⟩
  · intro x hx y hy hxy
    obtain ⟨t, v, huniq, ht, hv⟩ := hgreedy.exists_lowestJoin_single hnd hrep
      ((hmem x).2 hx) ((hmem y).2 hy) hxy
    refine ⟨t, huniq, ?_, fun m hm => ?_⟩
    · obtain ⟨m, hm⟩ := hv.exists_isBottleneck hrep.inUnit ((hmem x).2 hx) hxy
      exact ⟨m, hm.congr hmem⟩
    · obtain ⟨hmu, heq⟩ := hv.exact_eq hrep.inUnit ((hmem x).2 hx) hxy
        (hm.congr fun z => (hmem z).symm)
      rw [ht, one_sub_congr hv.inUnit hmu heq.symm]
  · intro u hu l r hc
    obtain ⟨-, hl, hr⟩ := (hgreedy.allMerges_single hnd hrep).of_mem_nodes hu hc
    exact ⟨hl, hr⟩
  · intro root' hgreedy' x hx y hy hxy t t' ht ht'
    obtain ⟨t₁, v, huniq, heq, hv⟩ := hgreedy.exists_lowestJoin_single hnd hrep
      ((hmem x).2 hx) ((hmem y).2 hy) hxy
    obtain ⟨t₂, v', huniq', heq', hv'⟩ := hgreedy'.exists_lowestJoin_single hnd hrep
      ((hmem x).2 hx) ((hmem y).2 hy) hxy
    obtain rfl := (huniq t).1 ht
    obtain rfl := (huniq' t').1 ht'
    rw [heq, heq']
    exact one_sub_congr hv.inUnit hv'.inUnit
      (le_antisymm (hv'.greatest _ hv.linked) (hv.greatest _ hv'.linked))

/-- A similarity of numbers that is one half between 1 and 2, and one quarter between 2 and 3. -/
def threeInARow (a b : Nat) : Float :=
  if a + b = 3 then 0.5 else if a + b = 5 then 0.25 else 0

set_option maxRecDepth 4000 in
/-- The numbers 1 and 3 are similar through 2 only. -/
theorem single_linkage_maxmin_three :
    [1, 2, 3] ≠ [] ∧ ∃ t,
      (∀ u, IsLowestJoin ((leaf 3).merge ((leaf 1).merge (leaf 2) 0.5) 0.75) 1 3 u ↔ u = t) ∧
      ∀ m, IsBottleneck [1, 2, 3] (pairSimilarity [1, 2, 3] threeInARow) 1 3 m →
        t.height = 1 - m := by
  obtain ⟨root, hroot, hheights, -⟩ :=
    single_linkage_maxmin (show [1, 2, 3] ≠ [] by decide) threeInARow
  have htree : cluster [1, 2, 3] threeInARow .single =
      some ((leaf 3).merge ((leaf 1).merge (leaf 2) 0.5) 0.75) := rfl
  obtain rfl := Option.some.inj (htree.symm.trans hroot)
  obtain ⟨t, huniq, -, hheight⟩ := hheights 1 (by decide) 3 (by decide) (by decide)
  exact ⟨by decide, t, huniq, hheight⟩

end ModuleRecovery
