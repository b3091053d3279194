import Mathlib.Data.List.Basic
import ModuleRecovery.Partition
import ModuleRecovery.Proofs.Collections.Lists

set_option relaxedAutoImplicit false
set_option autoImplicit false

/-!
# The cut of a dendrogram

A dendrogram has a cut that a recursion finds: descend from the root, and stop at single
items and at clusters that meet the threshold. The partition splits candidates one by one
and gives up when there are too many. It never splits a node of the cut, so every candidate
still owes the part of the cut below it, and whichever candidate is split first, the run
succeeds exactly if the whole cut fits into the bound.

## Main definitions

* `ModuleRecovery.Dendrogram.cut` — the cut.
* `ModuleRecovery.Candidate.Run` — the runs of the partition that may split any candidate
  that falls short of the threshold.
* `ModuleRecovery.Candidate.frontier` — the cut that a list of candidates leads to.

## Main results

* `ModuleRecovery.Candidate.frontier_split` — a split keeps the frontier.
* `ModuleRecovery.Candidate.Run.feasible_iff`, `ModuleRecovery.Candidate.Run.modules_perm` —
  what any run finds.
* `ModuleRecovery.exists_run_identify` — the partition is a run from the root alone.
* `ModuleRecovery.identify_cut` — the partition is the cut, if the cut fits.
-/

universe u

namespace ModuleRecovery

variable {α : Type u} {coupling : α → α → Float} {threshold : Float}

/-- The cut of a dendrogram: a single item, a cluster that meets the threshold, or else the
cuts of the two children. -/
def Dendrogram.cut (coupling : α → α → Float) (threshold : Float) :
    Dendrogram α → List (Dendrogram α)
  | .leaf a => [.leaf a]
  | .internal l r h ms =>
    if threshold ≤ averagePairwise coupling ms then [.internal l r h ms]
    else l.cut coupling threshold ++ r.cut coupling threshold

/-- The module that a subtree makes. -/
def Dendrogram.toModule (coupling : α → α → Float) (t : Dendrogram α) : Module α :=
  ⟨t.members, averagePairwise coupling t.members⟩

theorem Dendrogram.cut_length_pos (coupling : α → α → Float) (threshold : Float)
    (t : Dendrogram α) : 1 ≤ (t.cut coupling threshold).length := by
  induction t with
  | leaf a => simp [cut]
  | internal l r h ms ihl ihr =>
    rw [cut]
    split
    · simp
    · rw [List.length_append]
      omega

namespace Candidate

variable {c : Candidate α} {cs : List (Candidate α)} {i : Nat} {bound : Nat} {p : Partition α}

/-! ## The candidate to split -/

theorem keepWorst_of_not (worst : Option (Nat × Float)) {d : Candidate α × Nat}
    (hd : ¬ d.1.wantsSplit threshold = true) : keepWorst threshold worst d = worst :=
  if_neg hd

theorem keepWorst_none {d : Candidate α × Nat} (hd : d.1.wantsSplit threshold = true) :
    keepWorst threshold none d = some (d.2, d.1.average) :=
  if_pos hd

theorem keepWorst_some {d : Candidate α × Nat} (hd : d.1.wantsSplit threshold = true)
    (x : Float) :
    keepWorst threshold (some (i, x)) d =
      if d.1.average < x then some (d.2, d.1.average) else some (i, x) :=
  if_pos hd

/-- A candidate is met if one was met before or if it is to be split. -/
theorem isSome_foldl_keepWorst (worst : Option (Nat × Float)) (ds : List (Candidate α × Nat)) :
    (ds.foldl (keepWorst threshold) worst).isSome = true ↔
      worst.isSome = true ∨ ∃ d ∈ ds, d.1.wantsSplit threshold = true := by
  induction ds generalizing worst with
  | nil => simp
  | cons d ds ih =>
    rw [List.foldl_cons, ih]
    by_cases hd : d.1.wantsSplit threshold = true
    · have hsome : (keepWorst threshold worst d).isSome = true := by
        cases worst with
        | none => rw [keepWorst_none hd, Option.isSome_some]
        | some w =>
          rw [keepWorst_some hd]
          split <;> rfl
      simp [hsome, hd]
    · simp [keepWorst_of_not worst hd, hd]

/-- What is kept was kept before or is the position of a candidate to be split. -/
theorem foldl_keepWorst_eq_some {worst : Option (Nat × Float)} {ds : List (Candidate α × Nat)}
    {x : Float} (h : ds.foldl (keepWorst threshold) worst = some (i, x)) :
    worst = some (i, x) ∨ ∃ d ∈ ds, d.2 = i ∧ d.1.wantsSplit threshold = true := by
  induction ds generalizing worst with
  | nil => exact .inl h
  | cons d ds ih =>
    rcases ih h with hw | ⟨e, he, hei⟩
    · by_cases hd : d.1.wantsSplit threshold = true
      · have htaken : some (d.2, d.1.average) = some (i, x) →
            ∃ e ∈ d :: ds, e.2 = i ∧ e.1.wantsSplit threshold = true := fun heq =>
          ⟨d, List.mem_cons_self, (Prod.mk.inj (Option.some.inj heq)).1, hd⟩
        cases worst with
        | none =>
          rw [keepWorst_none hd] at hw
          exact .inr (htaken hw)
        | some w =>
          rw [keepWorst_some hd] at hw
          split at hw
          · exact .inr (htaken hw)
          · exact .inl hw
      · rw [keepWorst_of_not worst hd] at hw
        exact .inl hw
    · exact .inr ⟨e, List.mem_cons_of_mem d he, hei⟩

/-- There is none to split exactly if no candidate wants to be split. -/
theorem worst?_eq_none_iff :
    worst? threshold cs = none ↔ ∀ c ∈ cs, c.wantsSplit threshold = false := by
  rw [worst?, Option.map_eq_none_iff, ← Option.not_isSome_iff_eq_none, isSome_foldl_keepWorst]
  simp only [Option.isSome_none, Bool.false_eq_true, false_or, not_exists, not_and,
    Bool.not_eq_true]
  constructor
  · intro h c hc
    obtain ⟨i, hi⟩ := List.mem_iff_getElem?.1 hc
    exact h (c, i) (List.mk_mem_zipIdx_iff_getElem?.2 hi)
  · rintro h ⟨c, i⟩ hd
    exact h c (List.mem_of_getElem? (List.mk_mem_zipIdx_iff_getElem?.1 hd))

/-- The candidate chosen for a split wants to be split. -/
theorem worst?_eq_some (h : worst? threshold cs = some i) :
    ∃ c, cs[i]? = some c ∧ c.wantsSplit threshold = true := by
  obtain ⟨⟨j, x⟩, hfold, rfl⟩ := Option.map_eq_some_iff.1 h
  rcases foldl_keepWorst_eq_some hfold with h | ⟨⟨c, j'⟩, hd, rfl, hwants⟩
  · cases h
  · exact ⟨c, List.mk_mem_zipIdx_iff_getElem?.1 hd, hwants⟩

/-! ## Runs -/

/-- The runs of the partition with at most `bound` modules, where any candidate that falls
short of the threshold may be split next. -/
inductive Run (coupling : α → α → Float) (threshold : Float) (bound : Nat) :
    List (Candidate α) → Partition α → Prop where
  | done {cs : List (Candidate α)} (h : ∀ c ∈ cs, c.wantsSplit threshold = false) :
      Run coupling threshold bound cs ⟨cs.map toModule, true⟩
  | full {cs : List (Candidate α)} {c : Candidate α} (hc : c ∈ cs)
      (hwants : c.wantsSplit threshold = true) (hfull : bound ≤ cs.length) :
      Run coupling threshold bound cs ⟨cs.map toModule, false⟩
  | split {cs : List (Candidate α)} {c : Candidate α} {i : Nat} {p : Partition α}
      (hc : cs[i]? = some c) (hwants : c.wantsSplit threshold = true) (hroom : cs.length < bound)
      (hrun : Run coupling threshold bound (split coupling cs i) p) :
      Run coupling threshold bound cs p

/-- A candidate that wants to be split has two children, and splitting puts them at the end. -/
theorem split_eq (coupling : α → α → Float) (hc : cs[i]? = some c)
    (hwants : c.wantsSplit threshold = true) :
    ∃ l r h ms, c.node = .internal l r h ms ∧
      split coupling cs i = cs.eraseIdx i ++ [ofNode coupling l, ofNode coupling r] := by
  cases hnode : c.node with
  | leaf a => simp [wantsSplit, hnode, Dendrogram.isLeaf] at hwants
  | internal l r h ms =>
    refine ⟨l, r, h, ms, rfl, ?_⟩
    simp [split, hc, hnode, Dendrogram.children?]

/-- A split makes one candidate more. -/
theorem length_split (hc : cs[i]? = some c) (hwants : c.wantsSplit threshold = true) :
    (split coupling cs i).length = cs.length + 1 := by
  obtain ⟨l, r, h, ms, -, heq⟩ := split_eq coupling hc hwants
  have hlen := (perm_cons_eraseIdx hc).length_eq
  rw [heq, List.length_append, hlen, List.length_cons]
  rfl

/-- **The partition is one of the runs.** -/
theorem run_refine (coupling : α → α → Float) (threshold : Float) (room : Nat)
    (cs : List (Candidate α)) :
    Run coupling threshold (room + cs.length) cs (refine coupling threshold room cs) := by
  induction room generalizing cs with
  | zero =>
    unfold refine
    cases hw : worst? threshold cs with
    | none => exact .done (worst?_eq_none_iff.1 hw)
    | some i =>
      obtain ⟨c, hc, hwants⟩ := worst?_eq_some hw
      exact .full (List.mem_of_getElem? hc) hwants (by omega)
  | succ room ih =>
    unfold refine
    cases hw : worst? threshold cs with
    | none => exact .done (worst?_eq_none_iff.1 hw)
    | some i =>
      obtain ⟨c, hc, hwants⟩ := worst?_eq_some hw
      have hrun := ih (split coupling cs i)
      rw [length_split hc hwants, show room + (cs.length + 1) = room + 1 + cs.length by omega]
        at hrun
      exact .split hc hwants (by omega) hrun

/-! ## The frontier -/

/-- The cut that the candidates of a list lead to. -/
def frontier (coupling : α → α → Float) (threshold : Float) (cs : List (Candidate α)) :
    List (Dendrogram α) :=
  cs.flatMap fun c => c.node.cut coupling threshold

/-- Every candidate is the candidate of its subtree. -/
def AllOfNode (coupling : α → α → Float) (cs : List (Candidate α)) : Prop :=
  ∀ c ∈ cs, c = ofNode coupling c.node

theorem AllOfNode.split (h : AllOfNode coupling cs) (hc : cs[i]? = some c)
    (hwants : c.wantsSplit threshold = true) : AllOfNode coupling (split coupling cs i) := by
  obtain ⟨l, r, h', ms, -, heq⟩ := split_eq coupling hc hwants
  intro d hd
  rw [heq, List.mem_append] at hd
  rcases hd with hd | hd
  · exact h d (List.mem_of_mem_eraseIdx hd)
  · simp only [List.mem_cons, List.not_mem_nil, or_false] at hd
    rcases hd with rfl | rfl <;> rfl

/-- The cut stops at a candidate exactly if the candidate does not want to be split. -/
theorem cut_of_wantsSplit_eq_false (hc : c = ofNode coupling c.node)
    (h : c.wantsSplit threshold = false) : c.node.cut coupling threshold = [c.node] := by
  rw [hc] at h ⊢
  cases hnode : c.node with
  | leaf a => rfl
  | internal l r h' ms =>
    simp only [wantsSplit, ofNode, hnode, Dendrogram.isLeaf, Dendrogram.members, Bool.or_false,
      Bool.not_eq_false', decide_eq_true_eq] at h
    simp only [ofNode, Dendrogram.cut, h, if_true]

/-- The cut of a candidate to be split is made up of the cuts of its children. -/
theorem cut_of_wantsSplit {l r : Dendrogram α} {h : Float} {ms : List α}
    (hc : c = ofNode coupling c.node) (hnode : c.node = .internal l r h ms)
    (hwants : c.wantsSplit threshold = true) :
    c.node.cut coupling threshold = l.cut coupling threshold ++ r.cut coupling threshold := by
  rw [hc] at hwants
  simp only [wantsSplit, ofNode, hnode, Dendrogram.isLeaf, Dendrogram.members, Bool.or_false,
    Bool.not_eq_true', decide_eq_false_iff_not] at hwants
  rw [hnode, Dendrogram.cut, if_neg hwants]

/-- **A split keeps the frontier.** -/
theorem frontier_split (hof : AllOfNode coupling cs) (hc : cs[i]? = some c)
    (hwants : c.wantsSplit threshold = true) :
    (frontier coupling threshold (split coupling cs i)).Perm
      (frontier coupling threshold cs) := by
  obtain ⟨l, r, h, ms, hnode, heq⟩ := split_eq coupling hc hwants
  have hcut := cut_of_wantsSplit (hof c (List.mem_of_getElem? hc)) hnode hwants
  have hperm := (perm_cons_eraseIdx hc).flatMap_right fun c => c.node.cut coupling threshold
  rw [List.flatMap_cons, hcut] at hperm
  rw [frontier, heq, List.flatMap_append]
  refine List.perm_append_comm.trans (List.Perm.trans ?_ hperm.symm)
  simp [ofNode]

/-- If no candidate wants to be split, the candidates are the frontier. -/
theorem frontier_of_done (hof : AllOfNode coupling cs)
    (h : ∀ c ∈ cs, c.wantsSplit threshold = false) :
    frontier coupling threshold cs = cs.map Candidate.node := by
  rw [frontier, List.flatMap_congr fun c hc => cut_of_wantsSplit_eq_false (hof c hc) (h c hc)]
  exact List.flatMap_pure_eq_map Candidate.node cs

/-- The frontier has at least one node for each candidate. -/
theorem length_le_length_frontier (coupling : α → α → Float) (threshold : Float)
    (cs : List (Candidate α)) :
    cs.length ≤ (frontier coupling threshold cs).length := by
  induction cs with
  | nil => exact Nat.le_refl _
  | cons c cs ih =>
    have hpos := c.node.cut_length_pos coupling threshold
    rw [frontier, List.flatMap_cons, List.length_append, List.length_cons]
    rw [frontier] at ih
    omega

/-- As long as a candidate wants to be split, the frontier has more nodes than there are
candidates. -/
theorem length_lt_length_frontier (hof : AllOfNode coupling cs) (hc : c ∈ cs)
    (hwants : c.wantsSplit threshold = true) :
    cs.length < (frontier coupling threshold cs).length := by
  obtain ⟨i, hi⟩ := List.mem_iff_getElem?.1 hc
  have hle := length_le_length_frontier coupling threshold (split coupling cs i)
  rw [length_split hi hwants, (frontier_split hof hi hwants).length_eq] at hle
  omega

/-! ## What a run finds -/

/-- **A run succeeds exactly if the frontier fits into the bound.** -/
theorem Run.feasible_iff (hrun : Run coupling threshold bound cs p)
    (hof : AllOfNode coupling cs) (hlen : cs.length ≤ bound) :
    p.feasible = true ↔ (frontier coupling threshold cs).length ≤ bound := by
  induction hrun with
  | done h =>
    rw [frontier_of_done hof h, List.length_map]
    exact iff_of_true rfl hlen
  | full hc hwants hfull =>
    have hlt := length_lt_length_frontier hof hc hwants
    exact iff_of_false Bool.false_ne_true (by omega)
  | split hc hwants hroom _ ih =>
    rw [ih (hof.split hc hwants) (by rw [length_split hc hwants]; omega),
      (frontier_split hof hc hwants).length_eq]

/-- **The modules of a successful run are the modules of the frontier.** -/
theorem Run.modules_perm (hrun : Run coupling threshold bound cs p)
    (hof : AllOfNode coupling cs) (hp : p.feasible = true) :
    p.modules.Perm ((frontier coupling threshold cs).map (Dendrogram.toModule coupling)) := by
  induction hrun with
  | @done cs h =>
    rw [frontier_of_done hof h, List.map_map]
    refine List.Perm.of_eq (List.map_congr_left fun c hc => ?_)
    rw [hof c hc]
    rfl
  | full => cases hp
  | split hc hwants _ _ ih =>
    exact (ih (hof.split hc hwants) hp).trans ((frontier_split hof hc hwants).map _)

end Candidate

open Candidate

/-- Under a finite threshold, the partition is a run from the root alone. -/
theorem exists_run_identify {root : Dendrogram α} (hroot : root.MergeBuilt)
    (coupling : α → α → Float) (hfin : threshold.isFinite = true) :
    ∃ p, identify root coupling threshold = .ok p ∧
      Run coupling threshold (max 1 (root.leaves.length / 2)) [ofNode coupling root] p := by
  have hcount : root.leafCount = root.leaves.length := by
    rw [Dendrogram.leafCount, Dendrogram.members_eq_leaves hroot]
  have hrun := run_refine coupling threshold (maxModules root.leafCount - 1) [ofNode coupling root]
  refine ⟨_, if_pos hfin, ?_⟩
  have hbound : maxModules root.leafCount - 1 + 1 = max 1 (root.leaves.length / 2) := by
    rw [hcount, maxModules, Nat.sub_add_cancel (Nat.le_max_left _ _)]
  rwa [List.length_singleton, hbound] at hrun

/-- **The partition of a dendrogram is its cut.** The partition succeeds exactly if the cut has
at most as many nodes as there may be modules, and then its modules are those of the cut, up to
order. Whichever candidate is split first, the answer is the same.

**Proof sketch.** The partition is a run from the root alone, and the frontier of the root is
the cut. All runs succeed exactly if the frontier fits, and then they end with its modules. -/
theorem identify_cut {root : Dendrogram α} (hroot : root.MergeBuilt)
    (coupling : α → α → Float) {threshold : Float} (hfin : threshold.isFinite = true) :
    ∃ p, identify root coupling threshold = .ok p ∧
      (p.feasible = true ↔
        (root.cut coupling threshold).length ≤ max 1 (root.leaves.length / 2)) ∧
      (p.feasible = true →
        p.modules.Perm ((root.cut coupling threshold).map (Dendrogram.toModule coupling))) ∧
      ∀ q, Run coupling threshold (max 1 (root.leaves.length / 2)) [ofNode coupling root] q →
        q.feasible = p.feasible ∧ (p.feasible = true → q.modules.Perm p.modules) := by
  have hof : AllOfNode coupling [ofNode coupling root] := by
    intro c hc
    rw [List.mem_singleton.1 hc]
    rfl
  have hfrontier : frontier coupling threshold [ofNode coupling root] =
      root.cut coupling threshold :=
    List.flatMap_singleton _ _
  have hfeasible : ∀ q, Run coupling threshold (max 1 (root.leaves.length / 2))
      [ofNode coupling root] q →
      (q.feasible = true ↔
        (root.cut coupling threshold).length ≤ max 1 (root.leaves.length / 2)) := by
    intro q hq
    rw [← hfrontier]
    exact hq.feasible_iff hof (Nat.le_max_left _ _)
  have hmodules : ∀ q, Run coupling threshold (max 1 (root.leaves.length / 2))
      [ofNode coupling root] q → q.feasible = true →
      q.modules.Perm ((root.cut coupling threshold).map (Dendrogram.toModule coupling)) := by
    intro q hq hqf
    rw [← hfrontier]
    exact hq.modules_perm hof hqf
  obtain ⟨p, hp, hrun⟩ := exists_run_identify hroot coupling hfin
  refine ⟨p, hp, hfeasible p hrun, hmodules p hrun, fun q hq => ?_⟩
  have hiff := (hfeasible q hq).trans (hfeasible p hrun).symm
  refine ⟨Bool.eq_iff_iff.2 hiff, fun hpf => ?_⟩
  exact (hmodules q hq (hiff.2 hpf)).trans (hmodules p hrun hpf).symm

/-- Four numbers in two pairs, each pair coupled by one half. -/
def twoPairs : Dendrogram Nat :=
  ((Dendrogram.leaf 1).merge (.leaf 2) 0.5).merge ((Dendrogram.leaf 3).merge (.leaf 4) 0.5) 1

/-- Two numbers are coupled by one half if they make one of the pairs. -/
def pairCoupling (a b : Nat) : Float :=
  if a + b = 3 ∨ a + b = 7 then 0.5 else 0

set_option maxRecDepth 4000 in
/-- The two pairs are the modules of the four numbers. -/
theorem identify_cut_twoPairs :
    twoPairs.MergeBuilt ∧ (0.4 : Float).isFinite = true ∧
      ∃ p, identify twoPairs pairCoupling 0.4 = .ok p ∧ p.feasible = true ∧
        p.modules.Perm [⟨[1, 2], 0.5⟩, ⟨[3, 4], 0.5⟩] := by
  have hbuilt : twoPairs.MergeBuilt :=
    .merge _ (.merge _ (.leaf 1) (.leaf 2)) (.merge _ (.leaf 3) (.leaf 4))
  obtain ⟨p, hp, hfeasible, hmodules, -⟩ := identify_cut hbuilt pairCoupling
    (show (0.4 : Float).isFinite = true from rfl)
  have hcut : twoPairs.cut pairCoupling 0.4 =
      [(Dendrogram.leaf 1).merge (.leaf 2) 0.5, (Dendrogram.leaf 3).merge (.leaf 4) 0.5] := rfl
  have hpf : p.feasible = true := hfeasible.2 (by rw [hcut]; decide)
  refine ⟨hbuilt, rfl, p, hp, hpf, ?_⟩
  rw [hcut] at hmodules
  exact hmodules hpf

end ModuleRecovery
