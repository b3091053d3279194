import ModuleRecovery.Proofs.Partition.FrontierCut

set_option relaxedAutoImplicit false
set_option autoImplicit false

/-!
# Partitions under two thresholds

A greater cohesion threshold leads to a finer partition. As long as some candidate falls short
of the lower threshold, the least average is below it, so the same candidate is split next under
both thresholds. The run under the lower threshold is therefore the beginning of the other one:
where it stops for want of candidates the other one may go on, and where it stops at the bound
the other one stops as well.

## Main definitions

* `ModuleRecovery.Candidate.Refines` — candidates that others were split into.
* `ModuleRecovery.Candidate.Concur` — what the search for the worst candidate keeps under two
  thresholds.
* `ModuleRecovery.Candidate.EndFiner` — one run ends with a finer partition than another.

## Main results

* `ModuleRecovery.Candidate.worst?_eq_some_of_le` — the worst candidate under two thresholds.
* `ModuleRecovery.Candidate.endFiner_refine` — the run under the lower threshold comes first.
* `ModuleRecovery.identify_antitone` — a greater threshold leads to a finer partition.
-/

universe u

namespace ModuleRecovery

open Number

variable {α : Type u} {coupling : α → α → Float} {low high threshold : Float}

namespace Candidate

variable {c : Candidate α} {cs ds es : List (Candidate α)} {i bound room : Nat}

/-! ## The worst candidate -/

theorem AllOfNode.isOrdered (h : AllOfNode coupling cs) (hc : c ∈ cs) : IsOrdered c.average := by
  rw [h c hc]
  exact isOrdered_averagePairwise coupling _

theorem wantsSplit_iff_rank_lt (hc : IsOrdered c.average) (hfin : threshold.isFinite = true) :
    c.wantsSplit threshold = true ↔ c.node.isLeaf = false ∧ rank c.average < rank threshold := by
  rw [wantsSplit_iff hc hfin, lt_iff_rank_lt hc (.inl hfin)]

/-- What two searches for the worst candidate keep, under a lower and a greater threshold: the
same candidate once one falls short of the lower threshold, and before that at most one that
meets the lower threshold, kept by the second search alone. -/
inductive Concur (low : Float) : Option (Nat × Float) → Option (Nat × Float) → Prop where
  | none : Concur low none none
  | above {i : Nat} {x : Float} (hx : IsOrdered x) (h : rank low ≤ rank x) :
      Concur low none (some (i, x))
  | below {i : Nat} {x : Float} (hx : IsOrdered x) (h : rank x < rank low) :
      Concur low (some (i, x)) (some (i, x))

/-- **Looking at one more candidate keeps the searches in agreement.** -/
theorem Concur.keepWorst {w w' : Option (Nat × Float)} (h : Concur low w w')
    (hlow : low.isFinite = true) (hhigh : high.isFinite = true) (hle : rank low ≤ rank high)
    {d : Candidate α × Nat} (hd : IsOrdered d.1.average) :
    Concur low (keepWorst low w d) (keepWorst high w' d) := by
  by_cases hlowd : d.1.wantsSplit low = true
  · obtain ⟨hleaf, hlt⟩ := (wantsSplit_iff_rank_lt hd hlow).1 hlowd
    have hhighd : d.1.wantsSplit high = true :=
      (wantsSplit_iff_rank_lt hd hhigh).2 ⟨hleaf, hlt.trans_le hle⟩
    cases h with
    | none =>
      rw [keepWorst_none hlowd, keepWorst_none hhighd]
      exact .below hd hlt
    | above hx h =>
      rw [keepWorst_none hlowd, keepWorst_some hhighd,
        if_pos ((lt_iff_rank_lt hd hx).2 (hlt.trans_le h))]
      exact .below hd hlt
    | below hx h =>
      rw [keepWorst_some hlowd, keepWorst_some hhighd]
      split
      · exact .below hd hlt
      · exact .below hx h
  · rw [keepWorst_of_not w hlowd]
    by_cases hhighd : d.1.wantsSplit high = true
    · have hleaf := ((wantsSplit_iff_rank_lt hd hhigh).1 hhighd).1
      have hge : rank low ≤ rank d.1.average :=
        not_lt.1 fun hlt => hlowd ((wantsSplit_iff_rank_lt hd hlow).2 ⟨hleaf, hlt⟩)
      cases h with
      | none =>
        rw [keepWorst_none hhighd]
        exact .above hd hge
      | above hx h =>
        rw [keepWorst_some hhighd]
        split
        · exact .above hd hge
        · exact .above hx h
      | below hx h =>
        rw [keepWorst_some hhighd,
          if_neg fun hlt => (h.trans_le hge).not_gt ((lt_iff_rank_lt hd hx).1 hlt)]
        exact .below hx h
    · rw [keepWorst_of_not w' hhighd]
      exact h

/-- Searches in agreement stay so over a whole list. -/
theorem Concur.foldl {w w' : Option (Nat × Float)} (h : Concur low w w')
    (hlow : low.isFinite = true) (hhigh : high.isFinite = true) (hle : rank low ≤ rank high)
    {l : List (Candidate α × Nat)} (hl : ∀ d ∈ l, IsOrdered d.1.average) :
    Concur low (l.foldl (Candidate.keepWorst low) w) (l.foldl (Candidate.keepWorst high) w') := by
  induction l generalizing w w' with
  | nil => exact h
  | cons d l ih =>
    obtain ⟨hd, hl⟩ := List.forall_mem_cons.1 hl
    exact ih (h.keepWorst hlow hhigh hle hd) hl

/-- **If some candidate falls short of the lower threshold, the worst candidate is the same under
both thresholds.** -/
theorem worst?_eq_some_of_le (hlow : low.isFinite = true) (hhigh : high.isFinite = true)
    (hle : low ≤ high) (hof : AllOfNode coupling cs) (h : worst? low cs = some i) :
    worst? high cs = some i := by
  have hordered : ∀ d ∈ cs.zipIdx, IsOrdered d.1.average := fun d hd =>
    hof.isOrdered (List.mem_of_getElem? (List.mk_mem_zipIdx_iff_getElem?.1 hd))
  have hend := Concur.none.foldl hlow hhigh ((le_iff_rank_le (.inl hlow) (.inl hhigh)).1 hle)
    hordered
  unfold worst? at h ⊢
  generalize cs.zipIdx.foldl (Candidate.keepWorst low) none = w at h hend
  generalize cs.zipIdx.foldl (Candidate.keepWorst high) none = w' at hend
  cases hend with
  | none => cases h
  | above => cases h
  | below => exact h

/-! ## Candidates that others were split into -/

/-- The candidates of one list lie below those of another, and are no fewer. -/
structure Refines (cs ds : List (Candidate α)) : Prop where
  /-- Every candidate lies below one of the other list. -/
  below : ∀ c ∈ cs, ∃ d ∈ ds, c.node.nodes ⊆ d.node.nodes
  /-- There are at least as many. -/
  length_le : ds.length ≤ cs.length

theorem Refines.refl (cs : List (Candidate α)) : Refines cs cs :=
  ⟨fun c hc => ⟨c, hc, List.Subset.refl _⟩, Nat.le_refl _⟩

/-- Splitting a candidate leads further down. -/
theorem Refines.split (h : Refines cs ds) (hc : cs[i]? = some c)
    (hwants : c.wantsSplit threshold = true) : Refines (split coupling cs i) ds := by
  obtain ⟨l, r, height, ms, hnode, heq⟩ := split_eq coupling hc hwants
  obtain ⟨hl, hr⟩ := Dendrogram.nodes_children_subset
    (Dendrogram.children?_eq_some_iff.2 ⟨height, ms, hnode⟩)
  obtain ⟨d, hd, hcd⟩ := h.below c (List.mem_of_getElem? hc)
  refine ⟨fun e he => ?_, ?_⟩
  · rw [heq, List.mem_append] at he
    rcases he with he | he
    · exact h.below e (List.mem_of_mem_eraseIdx he)
    · simp only [List.mem_cons, List.not_mem_nil, or_false] at he
      rcases he with rfl | rfl
      · exact ⟨d, hd, fun u hu => hcd (hl hu)⟩
      · exact ⟨d, hd, fun u hu => hcd (hr hu)⟩
  · have hlen := h.length_le
    rw [length_split hc hwants]
    omega

/-- The candidates that become the modules were split from those at the start. -/
theorem exists_last_refine (coupling : α → α → Float) (threshold : Float) (room : Nat)
    (h : Refines cs ds) :
    ∃ last, (refine coupling threshold room cs).modules = last.map toModule ∧ Refines last ds := by
  obtain ⟨last, hlast, hmodules, -⟩ := (run_refine coupling threshold room cs).exists_last
    (I := fun es => Refines es ds) h fun es c i hes hc hwants _ => hes.split hc hwants
  exact ⟨last, hmodules, hlast⟩

/-- Two runs end with candidates that lie below those of an earlier list, the candidates of the
second run below those of the first, and the second run meets its threshold only if the first
does. -/
def EndFiner (ds : List (Candidate α)) (p q : Partition α) : Prop :=
  ∃ last last', p.modules = last.map toModule ∧ q.modules = last'.map toModule ∧
    Refines last ds ∧ Refines last' last ∧ (q.feasible = true → p.feasible = true)

/-- Where no candidate falls short of the lower threshold, the run under it stops, and the other
run can only go on. -/
theorem endFiner_of_worst?_eq_none (hw : worst? low cs = none) (coupling : α → α → Float)
    (high : Float) (room : Nat) (hcs : Refines cs ds) :
    EndFiner ds (refine coupling low room cs) (refine coupling high room cs) := by
  obtain ⟨last', hmodules, hlast'⟩ := exists_last_refine coupling high room (.refl cs)
  have hdone : refine coupling low room cs = ⟨cs.map toModule, true⟩ := by
    unfold refine
    rw [hw]
  rw [hdone]
  exact ⟨cs, last', rfl, hmodules, hcs, hlast', fun _ => rfl⟩

/-- **The run under the lower threshold comes first.**

**Proof sketch.** By induction on the room for splits. As long as the run under the lower
threshold has a candidate to split, both runs split the same one, or stop together for want of
room. -/
theorem endFiner_refine (hlow : low.isFinite = true) (hhigh : high.isFinite = true)
    (hle : low ≤ high) (room : Nat) (hof : AllOfNode coupling cs) (hcs : Refines cs ds) :
    EndFiner ds (refine coupling low room cs) (refine coupling high room cs) := by
  induction room generalizing cs with
  | zero =>
    cases hw : worst? low cs with
    | none => exact endFiner_of_worst?_eq_none hw coupling high 0 hcs
    | some i =>
      have hw' := worst?_eq_some_of_le hlow hhigh hle hof hw
      unfold refine
      rw [hw, hw']
      exact ⟨cs, cs, rfl, rfl, hcs, .refl cs, id⟩
  | succ room ih =>
    cases hw : worst? low cs with
    | none => exact endFiner_of_worst?_eq_none hw coupling high (room + 1) hcs
    | some i =>
      have hw' := worst?_eq_some_of_le hlow hhigh hle hof hw
      obtain ⟨c, hc, hwants⟩ := worst?_eq_some hw
      have hnext := ih (hof.split hc hwants) (hcs.split hc hwants)
      unfold refine
      rw [hw, hw']
      exact hnext

end Candidate

open Candidate

/-- **A greater threshold leads to a finer partition.** Under two finite thresholds, every module
found under the greater one lies in a module found under the lower one, there are no fewer of
them, and if the greater threshold is met, so is the lower one. This holds whether or not the
runs stop at the bound.

**Proof sketch.** The run under the lower threshold comes first, so each candidate of the other
run lies below one of its candidates, and the members of a node are among those of any node
above it. -/
theorem identify_antitone {root : Dendrogram α} (hroot : root.MergeBuilt)
    (coupling : α → α → Float) (hlow : low.isFinite = true) (hhigh : high.isFinite = true)
    (hle : low ≤ high) :
    ∃ p q, identify root coupling low = .ok p ∧ identify root coupling high = .ok q ∧
      (∀ m ∈ q.modules, ∃ m' ∈ p.modules, m.members.Sublist m'.members) ∧
      p.size ≤ q.size ∧ (q.feasible = true → p.feasible = true) := by
  have hof : AllOfNode coupling [ofNode coupling root] := by
    intro c hc
    rw [List.mem_singleton.1 hc]
    rfl
  obtain ⟨last, last', hp, hq, hlast, hlast', hfeasible⟩ :=
    endFiner_refine hlow hhigh hle (maxModules root.leafCount - 1) hof (.refl _)
  refine ⟨_, _, if_pos hlow, if_pos hhigh, fun m hm => ?_, ?_, hfeasible⟩
  · rw [hq] at hm
    obtain ⟨c, hc, rfl⟩ := List.mem_map.1 hm
    obtain ⟨d, hd, hbelow⟩ := hlast'.below c hc
    obtain ⟨r, hr, habove⟩ := hlast.below d hd
    rw [List.mem_singleton.1 hr] at habove
    refine ⟨d.toModule, hp ▸ List.mem_map_of_mem hd, ?_⟩
    exact Dendrogram.members_sublist_of_mem_nodes
      (hroot.of_mem_nodes (habove d.node.self_mem_nodes)) (hbelow c.node.self_mem_nodes)
  · rw [Partition.size, Partition.size, hp, hq, List.length_map, List.length_map]
    exact hlast'.length_le

set_option maxRecDepth 4000 in
/-- The four numbers are one module under a threshold that their average meets, and the two pairs
under a threshold that nothing meets. -/
theorem identify_antitone_twoPairs :
    twoPairs.MergeBuilt ∧ (0.1 : Float).isFinite = true ∧ (0.6 : Float).isFinite = true ∧
      (0.1 : Float) ≤ 0.6 ∧ ∃ p q, identify twoPairs pairCoupling 0.1 = .ok p ∧
        identify twoPairs pairCoupling 0.6 = .ok q ∧ p.modules.map Module.members = [[1, 2, 3, 4]] ∧
        q.modules.map Module.members = [[1, 2], [3, 4]] ∧
        (∀ m ∈ q.modules, ∃ m' ∈ p.modules, m.members.Sublist m'.members) ∧
        p.size ≤ q.size ∧ (q.feasible = true → p.feasible = true) := by
  have hbuilt : twoPairs.MergeBuilt :=
    .merge _ (.merge _ (.leaf 1) (.leaf 2)) (.merge _ (.leaf 3) (.leaf 4))
  have hle : (0.1 : Float) ≤ 0.6 := by decide
  obtain ⟨p, q, hp, hq, hfiner⟩ := identify_antitone hbuilt pairCoupling
    (show (0.1 : Float).isFinite = true from rfl) (show (0.6 : Float).isFinite = true from rfl) hle
  have hcoarse : (identify twoPairs pairCoupling 0.1).toOption.map
      (·.modules.map Module.members) = some [[1, 2, 3, 4]] := rfl
  have hfine : (identify twoPairs pairCoupling 0.6).toOption.map
      (·.modules.map Module.members) = some [[1, 2], [3, 4]] := rfl
  rw [hp] at hcoarse
  rw [hq] at hfine
  exact ⟨hbuilt, rfl, rfl, hle, p, q, hp, hq, Option.some.inj hcoarse, Option.some.inj hfine,
    hfiner⟩

end ModuleRecovery
