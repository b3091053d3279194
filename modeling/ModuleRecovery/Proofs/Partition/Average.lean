import ModuleRecovery.Partition
import ModuleRecovery.Proofs.Clustering.Dendrogram
import ModuleRecovery.Proofs.Collections.Pairs
import ModuleRecovery.Proofs.Number.Nonnegative

set_option relaxedAutoImplicit false
set_option autoImplicit false

/-!
# The average coupling of a module

Whatever a coupling function returns, the average of its clamped values is a number without
a sign. So a module that does not meet a finite threshold has an average below it, and two
coupling functions that agree after clamping have the same averages, and so the same
partitions.

## Main definitions

* `ModuleRecovery.AgreeBelow` — two functions have the same averages throughout a dendrogram.

## Main results

* `ModuleRecovery.isNonneg_averagePairwise` — an average is a number without a sign.
* `ModuleRecovery.Candidate.wantsSplit_iff` — a candidate that falls short of the threshold is
  below it.
* `ModuleRecovery.averagePairwise_congr` — the average depends on the clamped couplings of the
  pairs in list order only.
* `ModuleRecovery.identify_congr` — and so does the partition.
-/

universe u

namespace ModuleRecovery

open Number

variable {α : Type u}

/-- **The average of clamped couplings is a number without a sign.** -/
theorem isNonneg_averagePairwise (coupling : α → α → Float) (members : List α) :
    IsNonneg (averagePairwise coupling members).toModel.unpack := by
  unfold averagePairwise
  split
  · rw [unpack_one]
    exact isNonneg_finite
  · rename_i hlen
    have hpairs : 0 < (unorderedPairs members).length :=
      List.length_pos_iff.2 (unorderedPairs_ne_nil (by omega))
    have hsum := isSum_foldl (fun p : α × α => clampUnit (coupling p.1 p.2))
      (fun p => inUnit_clampUnit _) (unorderedPairs members) isSum_zero
    exact isNonneg_div hsum.nonneg hsum.finite (isPositive_ofNat hpairs)

/-- An average compares with every number that is finite. -/
theorem isOrdered_averagePairwise (coupling : α → α → Float) (members : List α) :
    IsOrdered (averagePairwise coupling members) :=
  .inr (isNonneg_averagePairwise coupling members)

/-- **A candidate wants to be split exactly if it has children and its average is below the
threshold.** -/
theorem Candidate.wantsSplit_iff {c : Candidate α} {threshold : Float}
    (hc : IsOrdered c.average) (hfin : threshold.isFinite = true) :
    c.wantsSplit threshold = true ↔ c.node.isLeaf = false ∧ c.average < threshold := by
  rw [lt_iff_not_le hc (.inl hfin), wantsSplit, Bool.not_eq_true', Bool.or_eq_false_iff,
    decide_eq_false_iff_not, and_comm]

/-- Two coupling functions that agree after clamping, on the pairs of a list in list order, have
the same average. -/
theorem averagePairwise_congr {f g : α → α → Float} {members : List α}
    (hfg : members.Pairwise fun x y => clampUnit (f x y) = clampUnit (g x y)) :
    averagePairwise f members = averagePairwise g members := by
  have hpairs := pairwise_iff_unorderedPairs.1 hfg
  have hsum : (unorderedPairs members).foldl (fun sum p => sum + clampUnit (f p.1 p.2)) 0 =
      (unorderedPairs members).foldl (fun sum p => sum + clampUnit (g p.1 p.2)) 0 :=
    List.foldl_ext _ _ _ fun sum p hp => by rw [hpairs p hp]
  simp only [averagePairwise, hsum]

/-! ## Partitions under functions that agree -/

/-- Two coupling functions have the same average at every node of a dendrogram. -/
def AgreeBelow (f g : α → α → Float) (t : Dendrogram α) : Prop :=
  ∀ u ∈ t.nodes, averagePairwise f u.members = averagePairwise g u.members

namespace Candidate

variable {f g : α → α → Float} {cs : List (Candidate α)}

theorem ofNode_congr {t : Dendrogram α} (h : AgreeBelow f g t) : ofNode f t = ofNode g t := by
  rw [ofNode, ofNode, h t t.self_mem_nodes]

/-- Functions that agree below the candidates split them alike, and agree below the new ones. -/
theorem split_congr (h : ∀ c ∈ cs, AgreeBelow f g c.node) (i : Nat) :
    split f cs i = split g cs i ∧ ∀ c ∈ split f cs i, AgreeBelow f g c.node := by
  cases hc : cs[i]?.bind (·.node.children?) with
  | none =>
    simp only [split, hc]
    exact ⟨trivial, h⟩
  | some children =>
    obtain ⟨l, r⟩ := children
    obtain ⟨c, hci, hchildren⟩ := Option.bind_eq_some_iff.1 hc
    obtain ⟨hl, hr⟩ := Dendrogram.nodes_children_subset hchildren
    have hagree := h c (List.mem_of_getElem? hci)
    have hagreel : AgreeBelow f g l := fun u hu => hagree u (hl hu)
    have hagreer : AgreeBelow f g r := fun u hu => hagree u (hr hu)
    simp only [split, hc, ofNode_congr hagreel, ofNode_congr hagreer]
    refine ⟨trivial, fun d hd => ?_⟩
    rcases List.mem_append.1 hd with hd | hd
    · exact h d (List.mem_of_mem_eraseIdx hd)
    · simp only [List.mem_cons, List.not_mem_nil, or_false] at hd
      rcases hd with rfl | rfl
      · exact hagreel
      · exact hagreer

/-- Functions that agree below the candidates lead to the same partition. -/
theorem refine_congr (threshold : Float) (room : Nat) (h : ∀ c ∈ cs, AgreeBelow f g c.node) :
    refine f threshold room cs = refine g threshold room cs := by
  induction room generalizing cs with
  | zero =>
    unfold refine
    cases worst? threshold cs <;> rfl
  | succ room ih =>
    unfold refine
    cases worst? threshold cs with
    | none => rfl
    | some i =>
      obtain ⟨heq, hnext⟩ := split_congr h i
      rw [heq] at hnext
      simp only [heq]
      exact ih hnext

end Candidate

/-- **The partition depends on clamped couplings only.** -/
theorem identify_congr {f g : α → α → Float} {root : Dendrogram α} (hroot : root.MergeBuilt)
    (hfg : root.members.Pairwise fun x y => clampUnit (f x y) = clampUnit (g x y))
    (threshold : Float) : identify root f threshold = identify root g threshold := by
  have hagree : AgreeBelow f g root := fun u hu =>
    averagePairwise_congr (hfg.sublist (Dendrogram.members_sublist_of_mem_nodes hroot hu))
  unfold identify
  rw [Candidate.ofNode_congr hagree, Candidate.refine_congr threshold _
    (List.forall_mem_singleton.2 hagree)]

end ModuleRecovery
