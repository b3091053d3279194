import Mathlib.Data.List.Flatten
import ModuleRecovery.Proofs.Clustering.Dendrogram
import ModuleRecovery.Proofs.Partition.Average
import ModuleRecovery.Proofs.Partition.Cut

set_option relaxedAutoImplicit false
set_option autoImplicit false

/-!
# The modules as a frontier of the dendrogram

A node of a dendrogram stands at a place: the turns that lead to it from the root. The nodes
chosen as modules form a frontier. Every leaf lies below exactly one of them, and every node
above a chosen one falls short of the threshold, or else the partition would have stopped
there. Both facts survive when a chosen node is replaced by its two children, so they hold of
every list of candidates on the way, whether or not the partition meets the threshold.

## Main definitions

* `ModuleRecovery.Dendrogram.subtreeAt?` — the node at a place.
* `ModuleRecovery.IsFrontierCut` — the frontiers that splitting leads to.

## Main results

* `ModuleRecovery.IsFrontierCut.split` — splitting a node that falls short keeps a frontier.
* `ModuleRecovery.Candidate.Run.exists_last` — what every split keeps holds of the candidates
  that become the modules.
* `ModuleRecovery.Partition.moduleOf?_eq_some_iff` — the module of an item, if no item is in
  two modules.
* `ModuleRecovery.identify_frontierCut` — the modules are a frontier within the bound.
-/

universe u

namespace ModuleRecovery

variable {α : Type u}

/-! ## Places -/

/-- Where to turn at a merge. -/
inductive Side where
  /-- To the left child. -/
  | left
  /-- To the right child. -/
  | right
  deriving DecidableEq

namespace Dendrogram

variable {l r t u : Dendrogram α} {p : List Side}

/-- The node at the end of a list of turns, the first one made at the root. -/
def subtreeAt? : Dendrogram α → List Side → Option (Dendrogram α)
  | t, [] => some t
  | leaf _, _ :: _ => none
  | internal l _ _ _, .left :: p => l.subtreeAt? p
  | internal _ r _ _, .right :: p => r.subtreeAt? p

@[simp] theorem subtreeAt?_nil (t : Dendrogram α) : t.subtreeAt? [] = some t := by
  cases t <;> rfl

/-- Turns made one after the other lead below the node where the first ones end. -/
theorem subtreeAt?_append (t : Dendrogram α) (p q : List Side) :
    t.subtreeAt? (p ++ q) = (t.subtreeAt? p).bind (·.subtreeAt? q) := by
  induction p generalizing t with
  | nil => simp
  | cons s p ih =>
    cases t with
    | leaf a => rfl
    | internal l r h ms =>
      cases s with
      | left => exact ih l
      | right => exact ih r

/-- What stands at a place is a node. -/
theorem mem_nodes_of_subtreeAt? (h : t.subtreeAt? p = some u) : u ∈ t.nodes := by
  induction p generalizing t with
  | nil =>
    rw [subtreeAt?_nil] at h
    obtain rfl := Option.some.inj h
    exact self_mem_nodes t
  | cons s p ih =>
    cases t with
    | leaf a => cases h
    | internal l r h' ms =>
      refine List.mem_cons_of_mem _ (List.mem_append.2 ?_)
      cases s with
      | left => exact .inl (ih h)
      | right => exact .inr (ih h)

/-- One turn further stand the children of a node. -/
theorem subtreeAt?_child (h : t.subtreeAt? p = some u) (hu : u.children? = some (l, r)) :
    t.subtreeAt? (p ++ [.left]) = some l ∧ t.subtreeAt? (p ++ [.right]) = some r := by
  obtain ⟨height, ms, rfl⟩ := children?_eq_some_iff.1 hu
  rw [subtreeAt?_append, subtreeAt?_append, h]
  exact ⟨l.subtreeAt?_nil, r.subtreeAt?_nil⟩

end Dendrogram

/-- A node together with its place. -/
structure PlacedNode (α : Type u) where
  /-- The turns that lead to the node. -/
  place : List Side
  /-- The node. -/
  node : Dendrogram α

/-! ## Frontiers -/

/-- Nodes of a dendrogram that share out its leaves, such that every node above one of them
falls short of the threshold. -/
structure IsFrontierCut (coupling : α → α → Float) (threshold : Float) (root : Dendrogram α)
    (chosen : List (PlacedNode α)) : Prop where
  /-- The nodes stand at their places. -/
  subtreeAt : ∀ c ∈ chosen, root.subtreeAt? c.place = some c.node
  /-- Exactly one of them is on the way from the root to a leaf. -/
  covers : ∀ p a, root.subtreeAt? p = some (.leaf a) →
    chosen.countP (fun c => c.place.isPrefixOf p) = 1
  /-- Together their members are those of the root. -/
  members_perm : (chosen.flatMap (·.node.members)).Perm root.members
  /-- Every node on the way from the root to one of them falls short of the threshold. -/
  above_lt : ∀ c ∈ chosen, ∀ p u, p <+: c.place → p ≠ c.place → root.subtreeAt? p = some u →
    averagePairwise coupling u.members < threshold

section Frontier

variable {coupling : α → α → Float} {threshold : Float} {root : Dendrogram α}
  {chosen : List (PlacedNode α)}

/-- The root alone is a frontier. -/
theorem isFrontierCut_root (coupling : α → α → Float) (threshold : Float)
    (root : Dendrogram α) : IsFrontierCut coupling threshold root [⟨[], root⟩] where
  subtreeAt c hc := by
    rw [List.mem_singleton.1 hc]
    exact root.subtreeAt?_nil
  covers p a _ := rfl
  members_perm := by
    rw [List.flatMap_singleton]
  above_lt c hc p u hp hne := by
    rw [List.mem_singleton.1 hc] at hp hne
    exact absurd (List.prefix_nil.1 hp) hne

/-- On the way to a place below a node is exactly one of the two children, if the node is on
the way. -/
theorem countP_children_isPrefixOf {place p : List Side} (hne : place ≠ p) :
    [place ++ [Side.left], place ++ [Side.right]].countP (·.isPrefixOf p) =
      [place].countP (·.isPrefixOf p) := by
  by_cases hpre : place <+: p
  · obtain ⟨q, rfl⟩ := hpre
    cases q with
    | nil => exact absurd (List.append_nil place).symm hne
    | cons s q => cases s <;> simp [List.prefix_append_right_inj]
  · have hchild : ∀ s : Side, ¬ place ++ [s] <+: p := fun s h =>
      hpre ((List.prefix_append place [s]).trans h)
    simp [hpre, hchild]

/-- If a node of a frontier falls short of the threshold, so does every node on the way to it. -/
theorem IsFrontierCut.lt_of_prefix (h : IsFrontierCut coupling threshold root chosen)
    {c : PlacedNode α} (hc : c ∈ chosen)
    (hlt : averagePairwise coupling c.node.members < threshold) {p : List Side}
    {u : Dendrogram α} (hp : p <+: c.place) (hu : root.subtreeAt? p = some u) :
    averagePairwise coupling u.members < threshold := by
  by_cases heq : p = c.place
  · rw [heq, h.subtreeAt c hc] at hu
    obtain rfl := Option.some.inj hu
    exact hlt
  · exact h.above_lt c hc p u hp heq hu

/-- **Splitting a node of a frontier that falls short of the threshold keeps a frontier.** -/
theorem IsFrontierCut.split (h : IsFrontierCut coupling threshold root chosen)
    (hroot : root.MergeBuilt) {i : Nat} {c : PlacedNode α} (hc : chosen[i]? = some c)
    {l r : Dendrogram α} (hnode : c.node.children? = some (l, r))
    (hlt : averagePairwise coupling c.node.members < threshold) :
    IsFrontierCut coupling threshold root
      (chosen.eraseIdx i ++ [⟨c.place ++ [.left], l⟩, ⟨c.place ++ [.right], r⟩]) := by
  have hmem : c ∈ chosen := List.mem_of_getElem? hc
  have hat := h.subtreeAt c hmem
  have hperm := perm_cons_eraseIdx hc
  have hmembers : c.node.members = l.members ++ r.members :=
    (hroot.of_mem_nodes (Dendrogram.mem_nodes_of_subtreeAt? hat)).members_eq_append hnode
  have hchild : ∀ d ∈ [PlacedNode.mk (c.place ++ [.left]) l, ⟨c.place ++ [.right], r⟩],
      (∃ s, d.place = c.place ++ [s]) ∧ root.subtreeAt? d.place = some d.node := by
    obtain ⟨hl, hr⟩ := Dendrogram.subtreeAt?_child hat hnode
    rw [List.forall_mem_cons, List.forall_mem_singleton]
    exact ⟨⟨⟨.left, rfl⟩, hl⟩, ⟨.right, rfl⟩, hr⟩
  refine ⟨fun d hd => ?_, fun p a hp => ?_, ?_, fun d hd p u hpre hne hu => ?_⟩
  · rcases List.mem_append.1 hd with hd | hd
    · exact h.subtreeAt d (List.mem_of_mem_eraseIdx hd)
    · exact (hchild d hd).2
  · -- a leaf is not at the place of a node with children
    have hne : c.place ≠ p := by
      rintro rfl
      rw [Option.some.inj (hat.symm.trans hp)] at hnode
      cases hnode
    have hcount := h.covers p a hp
    rw [hperm.countP_eq, ← List.singleton_append, List.countP_append] at hcount
    rw [List.countP_append, ← hcount, Nat.add_comm]
    exact congrArg (· + _) (countP_children_isPrefixOf hne)
  · refine List.Perm.trans ?_ h.members_perm
    have hflat := hperm.flatMap_right fun c => c.node.members
    rw [List.flatMap_cons, hmembers] at hflat
    rw [List.flatMap_append]
    refine List.perm_append_comm.trans (List.Perm.trans ?_ hflat.symm)
    simp
  · rcases List.mem_append.1 hd with hd | hd
    · exact h.above_lt d (List.mem_of_mem_eraseIdx hd) p u hpre hne hu
    · obtain ⟨⟨s, hs⟩, -⟩ := hchild d hd
      rw [hs] at hpre hne
      rcases List.prefix_concat_iff.1 hpre with heq | hpre
      · exact absurd heq hne
      · exact h.lt_of_prefix hmem hlt hpre hu

end Frontier

/-! ## The run over frontiers -/

namespace Candidate

variable {coupling : α → α → Float} {threshold : Float} {bound : Nat}

/-- **What holds at the start and is kept by every split holds of the candidates that become
the modules.** -/
theorem Run.exists_last {I : List (Candidate α) → Prop} {cs : List (Candidate α)}
    {p : Partition α} (hrun : Run coupling threshold bound cs p) (hI : I cs)
    (hstep : ∀ cs c i, I cs → cs[i]? = some c → c.wantsSplit threshold = true →
      cs.length < bound → I (Candidate.split coupling cs i)) :
    ∃ last, I last ∧ p.modules = last.map toModule ∧
      (p.feasible = true ↔ ∀ c ∈ last, c.wantsSplit threshold = false) ∧
      (p.feasible = false → bound ≤ last.length) := by
  induction hrun with
  | @done cs h => exact ⟨cs, hI, rfl, iff_of_true rfl h, nofun⟩
  | @full cs c hc hwants hfull =>
    refine ⟨cs, hI, rfl, iff_of_false Bool.false_ne_true fun h => ?_, fun _ => hfull⟩
    rw [h c hc] at hwants
    cases hwants
  | split hc hwants hroom _ ih => exact ih (hstep _ _ _ hI hc hwants hroom)

/-- A candidate of a node wants to be split exactly if the node has children and its average is
below the threshold. -/
theorem wantsSplit_ofNode_iff (hfin : threshold.isFinite = true) {node : Dendrogram α} :
    (ofNode coupling node).wantsSplit threshold = true ↔
      node.isLeaf = false ∧ averagePairwise coupling node.members < threshold :=
  wantsSplit_iff (isOrdered_averagePairwise coupling node.members) hfin

/-- The candidates of a frontier of at most `bound` nodes. -/
def OfFrontier (coupling : α → α → Float) (threshold : Float) (bound : Nat)
    (root : Dendrogram α) (cs : List (Candidate α)) : Prop :=
  ∃ chosen, IsFrontierCut coupling threshold root chosen ∧
    cs = chosen.map (fun c => ofNode coupling c.node) ∧ cs.length ≤ bound

/-- Splitting a candidate of a frontier leads to the candidates of a frontier. -/
theorem OfFrontier.split (hfin : threshold.isFinite = true) {root : Dendrogram α}
    (hroot : root.MergeBuilt) {cs : List (Candidate α)} {c : Candidate α} {i : Nat}
    (h : OfFrontier coupling threshold bound root cs) (hc : cs[i]? = some c)
    (hwants : c.wantsSplit threshold = true) (hroom : cs.length < bound) :
    OfFrontier coupling threshold bound root (split coupling cs i) := by
  obtain ⟨chosen, hcut, hcs, -⟩ := h
  obtain ⟨l, r, height, ms, hnode, hsplit⟩ := split_eq coupling hc hwants
  have hlen : (Candidate.split coupling cs i).length ≤ bound := by
    rw [length_split hc hwants]
    omega
  rw [hsplit] at hlen ⊢
  rw [hcs, List.getElem?_map, Option.map_eq_some_iff] at hc
  obtain ⟨d, hd, rfl⟩ := hc
  have hlt := (wantsSplit_ofNode_iff hfin).1 hwants
  have hchildren : d.node.children? = some (l, r) :=
    Dendrogram.children?_eq_some_iff.2 ⟨height, ms, hnode⟩
  refine ⟨_, hcut.split hroot hd hchildren hlt.2, ?_, hlen⟩
  rw [hcs, List.map_append, List.eraseIdx_map]
  rfl

end Candidate

/-! ## The module of an item -/

namespace Partition

variable [DecidableEq α] {p : Partition α} {x : α}

/-- An item has no module exactly if it is a member of none. -/
theorem moduleOf?_eq_none_iff : p.moduleOf? x = none ↔ ∀ m ∈ p.modules, x ∉ m.members := by
  simp [moduleOf?]

/-- **If no item is in two modules, the module of an item is the one that holds it.** -/
theorem moduleOf?_eq_some_iff (hnd : (p.modules.flatMap Module.members).Nodup) {i : Nat} :
    p.moduleOf? x = some i ↔ ∃ m, p.modules[i]? = some m ∧ x ∈ m.members := by
  have hdisj := (List.nodup_flatMap.1 hnd).2
  rw [moduleOf?, List.findIdx?_eq_some_iff_getElem]
  constructor
  · rintro ⟨hi, hx, -⟩
    exact ⟨p.modules[i], List.getElem?_eq_getElem hi, of_decide_eq_true hx⟩
  · rintro ⟨m, hm, hx⟩
    obtain ⟨hi, rfl⟩ := List.getElem?_eq_some_iff.1 hm
    refine ⟨hi, decide_eq_true hx, fun j hj hxj => ?_⟩
    exact List.pairwise_iff_getElem.1 hdisj j i (by omega) hi hj (of_decide_eq_true hxj) hx

end Partition

open Candidate

/-- **Together the modules of a dendrogram have its members.** -/
theorem identify_members_perm {root : Dendrogram α} (hroot : root.MergeBuilt)
    {coupling : α → α → Float} {threshold : Float} {p : Partition α}
    (h : identify root coupling threshold = .ok p) :
    (p.modules.flatMap Module.members).Perm root.members := by
  have hfin : threshold.isFinite = true := by
    unfold identify at h
    split at h
    · assumption
    · cases h
  obtain ⟨p', hp', hrun⟩ := exists_run_identify hroot coupling hfin
  obtain rfl := Except.ok.inj (h.symm.trans hp')
  obtain ⟨last, ⟨chosen, hcut, rfl, -⟩, hmodules, -⟩ :=
    hrun.exists_last (I := OfFrontier coupling threshold (max 1 (root.leaves.length / 2)) root)
      ⟨_, isFrontierCut_root coupling threshold root, rfl, Nat.le_max_left _ _⟩
      fun cs c i h hc hwants hroom => h.split hfin hroot hc hwants hroom
  rw [hmodules, List.map_map, List.flatMap_map]
  exact hcut.members_perm

/-- **The modules of a dendrogram are a frontier within the bound.** A threshold that is not
finite is refused. Otherwise the modules are those of a frontier, at most half as many as there
are leaves. The threshold counts as met exactly if no chosen merge falls short of it, and if it
is not met, there are as many modules as there may be. If no item occurs at two leaves, every
item of the dendrogram is in exactly one module.

**Proof sketch.** The partition is a run from the root alone. The root is a frontier, every
split keeps one and keeps the bound, so the candidates that become the modules are those of a
frontier. -/
theorem identify_frontierCut [DecidableEq α] {root : Dendrogram α} (hroot : root.MergeBuilt)
    (coupling : α → α → Float) (threshold : Float) :
    ((∃ e, identify root coupling threshold = .error e) ↔ threshold.isFinite = false) ∧
    (threshold.isFinite = true → ∃ p chosen,
      identify root coupling threshold = .ok p ∧
      IsFrontierCut coupling threshold root chosen ∧
      p.modules = chosen.map (fun c => c.node.toModule coupling) ∧
      p.modules.length ≤ max 1 (root.leaves.length / 2) ∧
      (p.feasible = true ↔ ∀ c ∈ chosen, c.node.isLeaf = false →
        ¬ averagePairwise coupling c.node.members < threshold) ∧
      (p.feasible = false → p.modules.length = max 1 (root.leaves.length / 2)) ∧
      (root.leaves.Nodup → ∀ x,
        (∀ i, p.moduleOf? x = some i ↔ ∃ m, p.modules[i]? = some m ∧ x ∈ m.members) ∧
        (p.moduleOf? x = none ↔ x ∉ root.leaves))) := by
  refine ⟨?_, fun hfin => ?_⟩
  · rw [identify]
    split
    next hfin => simp [hfin]
    next hfin => simpa using hfin
  obtain ⟨p, hp, hrun⟩ := exists_run_identify hroot coupling hfin
  obtain ⟨last, ⟨chosen, hcut, rfl, hlen⟩, hmodules, hfeasible, hfull⟩ :=
    hrun.exists_last (I := OfFrontier coupling threshold (max 1 (root.leaves.length / 2)) root)
      ⟨_, isFrontierCut_root coupling threshold root, rfl, Nat.le_max_left _ _⟩
      fun cs c i h hc hwants hroom => h.split hfin hroot hc hwants hroom
  have hcount : p.modules.length = (chosen.map fun c => ofNode coupling c.node).length := by
    rw [hmodules, List.length_map]
  have hperm : (p.modules.flatMap Module.members).Perm root.leaves := by
    rw [hmodules, List.map_map, List.flatMap_map, ← Dendrogram.members_eq_leaves hroot]
    exact hcut.members_perm
  refine ⟨p, chosen, hp, hcut, ?_, hcount.trans_le hlen, ?_, fun h => ?_, fun hnd x => ⟨?_, ?_⟩⟩
  · rw [hmodules, List.map_map]
    rfl
  · rw [hfeasible, List.forall_mem_map]
    refine forall₂_congr fun c _ => ?_
    rw [← Bool.not_eq_true, wantsSplit_ofNode_iff hfin, not_and]
  · exact le_antisymm (hcount.trans_le hlen) (hcount ▸ hfull h)
  · exact fun i => Partition.moduleOf?_eq_some_iff (hperm.nodup_iff.2 hnd)
  · rw [Partition.moduleOf?_eq_none_iff, ← hperm.mem_iff, List.mem_flatMap]
    push Not
    rfl

set_option maxRecDepth 4000 in
/-- Two modules are the most for four numbers, so the two pairs are not split any further,
although they fall short of the threshold. -/
theorem identify_frontierCut_twoPairs :
    twoPairs.MergeBuilt ∧ (0.6 : Float).isFinite = true ∧ twoPairs.leaves.Nodup ∧
      ∃ p chosen, identify twoPairs pairCoupling 0.6 = .ok p ∧ p.feasible = false ∧
        IsFrontierCut pairCoupling 0.6 twoPairs chosen ∧
        p.modules = chosen.map (fun c => c.node.toModule pairCoupling) ∧
        p.modules.length = 2 ∧ p.moduleOf? 5 = none := by
  have hbuilt : twoPairs.MergeBuilt :=
    .merge _ (.merge _ (.leaf 1) (.leaf 2)) (.merge _ (.leaf 3) (.leaf 4))
  have hleaves : twoPairs.leaves = [1, 2, 3, 4] := rfl
  have hnd : twoPairs.leaves.Nodup := by
    rw [hleaves]
    decide
  have hrun : identify twoPairs pairCoupling 0.6 =
      .ok ⟨[⟨[1, 2], 0.5⟩, ⟨[3, 4], 0.5⟩], false⟩ := rfl
  obtain ⟨p, chosen, hp, hcut, hmodules, -, -, hfull, hmodule⟩ :=
    (identify_frontierCut hbuilt pairCoupling 0.6).2 rfl
  obtain rfl := Except.ok.inj (hrun.symm.trans hp)
  refine ⟨hbuilt, rfl, hnd, _, chosen, hp, rfl, hcut, hmodules, hfull rfl, ?_⟩
  rw [(hmodule hnd 5).2, hleaves]
  decide

end ModuleRecovery
