import ModuleRecovery.Proofs.Clustering.Similarity
import ModuleRecovery.Proofs.Collections.FirstGreatest

set_option relaxedAutoImplicit false
set_option autoImplicit false

/-!
# The similarity of two clusters

The passes for the greatest and the least number of a list start from an infinity, which
every number between zero and one replaces. So they end with an item of the list, and the
single or complete linkage of two clusters is the similarity of some pair of their items.

## Main results

* `ModuleRecovery.firstGreatest_greater`, `ModuleRecovery.firstGreatest_lesser` — the two
  passes find the greatest and the least item.
* `ModuleRecovery.Linkage.inUnit_between` — every linkage is between zero and one.
* `ModuleRecovery.Linkage.exists_between_single`, `ModuleRecovery.Linkage.le_between_single`
  — single linkage is the greatest similarity across two clusters.
* `ModuleRecovery.Linkage.exists_between_complete`,
  `ModuleRecovery.Linkage.between_complete_le` — complete linkage is the least one.
-/

namespace ModuleRecovery

open Number

/-- The pass for the greatest number finds the first of the greatest numbers. -/
theorem firstGreatest_greater {xs : List Float} (hne : xs ≠ []) (hxs : ∀ x ∈ xs, InUnit x) :
    FirstGreatest exact xs (xs.foldl greater negativeInfinity) := by
  match xs, hne with
  | x :: xs, _ =>
    have hstart : greater negativeInfinity x = x := if_pos (negativeInfinity_lt (hxs x (by simp)))
    rw [List.foldl_cons, hstart]
    refine firstGreatest_foldl x xs fun y hy z hz => ?_
    rw [greater]
    exact if_congr ((hxs y hy).lt_iff (hxs z hz)) rfl rfl

/-- The pass for the least number finds the first of the least numbers. -/
theorem firstGreatest_lesser {xs : List Float} (hne : xs ≠ []) (hxs : ∀ x ∈ xs, InUnit x) :
    FirstGreatest (fun x => -exact x) xs (xs.foldl lesser positiveInfinity) := by
  match xs, hne with
  | x :: xs, _ =>
    have hstart : lesser positiveInfinity x = x := if_pos (lt_positiveInfinity (hxs x (by simp)))
    rw [List.foldl_cons, hstart]
    refine firstGreatest_foldl x xs fun y hy z hz => ?_
    rw [lesser]
    exact if_congr (((hxs z hz).lt_iff (hxs y hy)).trans neg_lt_neg_iff.symm) rfl rfl

namespace Linkage

variable {n : Nat} {sims : SimilarityMatrix n} {a b : List (Fin n)}

theorem inUnit_between (linkage : Linkage) (sims : SimilarityMatrix n) (a b : List (Fin n)) :
    InUnit (linkage.between sims a b) :=
  inUnit_clampUnit _

/-- The similarities across two clusters. -/
theorem mem_across {x : Float} :
    x ∈ (a.flatMap fun i => b.map fun j => sims.get i j) ↔
      ∃ i ∈ a, ∃ j ∈ b, sims.get i j = x := by
  simp only [List.mem_flatMap, List.mem_map]

theorem inUnit_of_mem_across (hsims : ∀ i j, InUnit (sims.get i j)) :
    ∀ x ∈ (a.flatMap fun i => b.map fun j => sims.get i j), InUnit x := by
  intro x hx
  obtain ⟨i, -, j, -, rfl⟩ := mem_across.1 hx
  exact hsims i j

/-- There is a similarity across two clusters that are not empty. -/
theorem across_ne_nil (ha : a ≠ []) (hb : b ≠ []) :
    (a.flatMap fun i => b.map fun j => sims.get i j) ≠ [] := by
  obtain ⟨i, hi⟩ := List.exists_mem_of_ne_nil a ha
  obtain ⟨j, hj⟩ := List.exists_mem_of_ne_nil b hb
  exact List.ne_nil_of_mem (mem_across.2 ⟨i, hi, j, hj, rfl⟩)

/-- Single linkage finds the greatest similarity across two clusters. -/
theorem firstGreatest_between_single (hsims : ∀ i j, InUnit (sims.get i j)) (ha : a ≠ [])
    (hb : b ≠ []) :
    FirstGreatest exact (a.flatMap fun i => b.map fun j => sims.get i j)
      (single.between sims a b) := by
  have hmem := inUnit_of_mem_across (a := a) (b := b) hsims
  have hfg := firstGreatest_greater (across_ne_nil ha hb) hmem
  rw [between, combine, clampUnit_of_inUnit (hmem _ hfg.mem)]
  exact hfg

/-- Complete linkage finds the least similarity across two clusters. -/
theorem firstGreatest_between_complete (hsims : ∀ i j, InUnit (sims.get i j)) (ha : a ≠ [])
    (hb : b ≠ []) :
    FirstGreatest (fun x => -exact x) (a.flatMap fun i => b.map fun j => sims.get i j)
      (complete.between sims a b) := by
  have hmem := inUnit_of_mem_across (a := a) (b := b) hsims
  have hfg := firstGreatest_lesser (across_ne_nil ha hb) hmem
  rw [between, combine, clampUnit_of_inUnit (hmem _ hfg.mem)]
  exact hfg

/-- Single linkage is the similarity of some two items of the clusters. -/
theorem exists_between_single (hsims : ∀ i j, InUnit (sims.get i j)) (ha : a ≠ [])
    (hb : b ≠ []) : ∃ i ∈ a, ∃ j ∈ b, sims.get i j = single.between sims a b :=
  mem_across.1 (firstGreatest_between_single hsims ha hb).mem

/-- No two items of the clusters are more similar than single linkage says. -/
theorem le_between_single (hsims : ∀ i j, InUnit (sims.get i j)) {i j : Fin n} (hi : i ∈ a)
    (hj : j ∈ b) : exact (sims.get i j) ≤ exact (single.between sims a b) :=
  (firstGreatest_between_single hsims (List.ne_nil_of_mem hi) (List.ne_nil_of_mem hj)).le
    (mem_across.2 ⟨i, hi, j, hj, rfl⟩)

/-- Complete linkage is the similarity of some two items of the clusters. -/
theorem exists_between_complete (hsims : ∀ i j, InUnit (sims.get i j)) (ha : a ≠ [])
    (hb : b ≠ []) : ∃ i ∈ a, ∃ j ∈ b, sims.get i j = complete.between sims a b :=
  mem_across.1 (firstGreatest_between_complete hsims ha hb).mem

/-- No two items of the clusters are less similar than complete linkage says. -/
theorem between_complete_le (hsims : ∀ i j, InUnit (sims.get i j)) {i j : Fin n} (hi : i ∈ a)
    (hj : j ∈ b) : exact (complete.between sims a b) ≤ exact (sims.get i j) :=
  neg_le_neg_iff.1 <|
    (firstGreatest_between_complete hsims (List.ne_nil_of_mem hi) (List.ne_nil_of_mem hj)).le
      (mem_across.2 ⟨i, hi, j, hj, rfl⟩)

end Linkage

end ModuleRecovery
