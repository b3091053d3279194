import ModuleRecovery.Proofs.Clustering.Dendrogram

set_option relaxedAutoImplicit false
set_option autoImplicit false

/-!
# The heights of a dendrogram

The heights of the merges are listed by a walk with a stack of nodes: the node on top is taken off,
and a merge puts its two sides in its place. What is still to be listed is at any time what the
nodes of the stack hold, one after the other, so the walk lists the heights in the order that the
tree has by its structure, and it visits every node once.

## Main definitions

* `ModuleRecovery.Dendrogram.preorderHeights` — the heights by the structure of the tree.
* `ModuleRecovery.HeightWalk` — the state of a walk over the nodes.
* `ModuleRecovery.HeightWalk.rounds?` — a number of rounds of the walk.

## Main results

* `ModuleRecovery.Dendrogram.heightsOfStack_eq_flatMap` — what a stack of nodes holds.
* `ModuleRecovery.Dendrogram.heights_eq_preorderHeights` — the order of the heights.
* `ModuleRecovery.HeightWalk.rounds?_nodeCount` — the rounds that are spent on a node.
* `ModuleRecovery.Dendrogram.heights_walk` — the heights, the walk and the counts of a dendrogram.
-/

universe u

namespace ModuleRecovery

variable {α : Type u}

namespace Dendrogram

/-- The heights of all merges: that of a merge, then those of its left and of its right side. -/
def preorderHeights : Dendrogram α → List Float
  | leaf _ => []
  | internal l r h _ => h :: (l.preorderHeights ++ r.preorderHeights)

/-- **A stack of nodes holds the heights of its nodes**, those of the top first. -/
theorem heightsOfStack_eq_flatMap (stack : List (Dendrogram α)) :
    heightsOfStack stack = stack.flatMap preorderHeights := by
  induction stack using heightsOfStack.induct with
  | case1 => rw [heightsOfStack, List.flatMap_nil]
  | case2 a stack ih => rw [heightsOfStack, ih, List.flatMap_cons, preorderHeights, List.nil_append]
  | case3 l r h ms stack ih =>
    rw [heightsOfStack, ih, List.flatMap_cons, List.flatMap_cons, List.flatMap_cons,
      preorderHeights, List.cons_append, List.append_assoc]

/-- **The heights are listed in pre-order.** -/
theorem heights_eq_preorderHeights (t : Dendrogram α) : t.heights = t.preorderHeights := by
  rw [heights, heightsOfStack_eq_flatMap, List.flatMap_singleton]

theorem heights_leaf (a : α) : (leaf a).heights = [] :=
  heights_eq_preorderHeights _

theorem heights_internal (l r : Dendrogram α) (h : Float) (ms : List α) :
    (internal l r h ms).heights = h :: (l.heights ++ r.heights) := by
  rw [heights_eq_preorderHeights, preorderHeights, ← heights_eq_preorderHeights,
    ← heights_eq_preorderHeights]

/-- There is one height for each merge. -/
theorem length_heights (t : Dendrogram α) : t.heights.length = t.mergeCount := by
  induction t with
  | leaf a => rw [heights_leaf, mergeCount, List.length_nil]
  | internal l r h ms ihl ihr =>
    rw [heights_internal, mergeCount, List.length_cons, List.length_append, ihl, ihr]
    omega

/-- The nodes are the leaves and the merges, of which there is one less. -/
theorem nodeCount_add_one (t : Dendrogram α) : t.nodeCount + 1 = 2 * t.leaves.length := by
  induction t with
  | leaf a => rfl
  | internal l r h ms ihl ihr =>
    rw [nodeCount, leaves, List.length_append]
    omega

end Dendrogram

/-! ## The walk -/

/-- The state of a walk over the nodes of dendrograms. -/
structure HeightWalk (α : Type u) where
  /-- The heights listed so far. -/
  listed : List Float := []
  /-- The nodes still to visit, the next one first. -/
  stack : List (Dendrogram α)

namespace HeightWalk

open Dendrogram

/-- Take the node on top off the stack. A merge is listed, and puts its sides on the stack, the left
one on top. There is no round without a node. -/
def round? : HeightWalk α → Option (HeightWalk α)
  | ⟨_, []⟩ => none
  | ⟨listed, t :: stack⟩ =>
    match t.children? with
    | none => some ⟨listed, stack⟩
    | some (l, r) => some ⟨listed ++ [t.height], l :: r :: stack⟩

/-- Carry out exactly the given number of rounds. -/
def rounds? : Nat → HeightWalk α → Option (HeightWalk α)
  | 0, w => some w
  | k + 1, w => w.round?.bind (rounds? k)

theorem rounds?_add (j k : Nat) (w : HeightWalk α) :
    rounds? (j + k) w = (rounds? j w).bind (rounds? k) := by
  induction j generalizing w with
  | zero => rw [Nat.zero_add, rounds?, Option.bind_some]
  | succ j ih =>
    rw [Nat.succ_add_eq_add_succ, Nat.add_succ, rounds?, rounds?, Option.bind_assoc]
    exact Option.bind_congr fun w' _ => ih w'

/-- **The rounds that are spent on a node**: one for each node below it and itself. They list its
heights behind those listed before, and leave the rest of the stack as it was. -/
theorem rounds?_nodeCount (t : Dendrogram α) (listed : List Float)
    (stack : List (Dendrogram α)) :
    rounds? t.nodeCount ⟨listed, t :: stack⟩ = some ⟨listed ++ t.heights, stack⟩ := by
  induction t generalizing listed stack with
  | leaf a =>
    rw [heights_leaf, List.append_nil]
    rfl
  | internal l r h ms ihl ihr =>
    have hcount : (internal l r h ms).nodeCount = l.nodeCount + r.nodeCount + 1 := by
      rw [nodeCount]
      omega
    have hround : round? ⟨listed, internal l r h ms :: stack⟩ =
        some ⟨listed ++ [h], l :: r :: stack⟩ := rfl
    rw [hcount, rounds?, hround, Option.bind_some, rounds?_add, ihl, Option.bind_some, ihr,
      heights_internal, List.append_assoc, List.append_assoc, List.singleton_append]

end HeightWalk

namespace Dendrogram

variable {t : Dendrogram α}

/-- **The heights of a dendrogram built by merges.** The walk from the root ends: after one round
for each node, of which there are twice as many as leaves but one, the stack is empty and the
heights are listed. They are in pre-order, the height of a merge before those of its left side, and
those before the heights of its right side. There are as many as merges, one less than items, and
the recorded items are as many as leaves.

**Proof sketch.** The rounds spent on a node list its heights and leave the rest of the stack as it
was, whatever was listed and stacked before; by induction on the node, the sides of a merge one
after the other. -/
theorem heights_walk (ht : t.MergeBuilt) :
    HeightWalk.rounds? (2 * t.leafCount - 1) ⟨[], [t]⟩ = some ⟨t.heights, []⟩ ∧
      t.heights = t.preorderHeights ∧
      t.heights.length = t.mergeCount ∧
      t.mergeCount + 1 = t.leafCount ∧
      t.leafCount = t.leaves.length := by
  have hleaves : t.leafCount = t.leaves.length := by rw [leafCount, members_eq_leaves ht]
  refine ⟨?_, t.heights_eq_preorderHeights, t.length_heights, ?_, hleaves⟩
  · rw [hleaves, ← nodeCount_add_one, Nat.add_sub_cancel, HeightWalk.rounds?_nodeCount,
      List.nil_append]
  · rw [hleaves, mergeCount_add_one]

/-- Five items, merged in a different shape on either side. -/
def fiveLeaves : Dendrogram Nat :=
  ((leaf 1).merge (leaf 2) 0.25).merge ((leaf 3).merge ((leaf 4).merge (leaf 5) 0.5) 0.75) 1

theorem heights_walk_fiveLeaves :
    fiveLeaves.MergeBuilt ∧
      HeightWalk.rounds? 9 ⟨[], [fiveLeaves]⟩ = some ⟨fiveLeaves.heights, []⟩ ∧
      fiveLeaves.heights = [1, 0.25, 0.75, 0.5] ∧
      fiveLeaves.heights.length = 4 ∧ 4 + 1 = fiveLeaves.leafCount ∧
      fiveLeaves.leafCount = fiveLeaves.leaves.length := by
  have hbuilt : fiveLeaves.MergeBuilt :=
    .merge 1 (.merge 0.25 (.leaf 1) (.leaf 2))
      (.merge 0.75 (.leaf 3) (.merge 0.5 (.leaf 4) (.leaf 5)))
  exact ⟨hbuilt, heights_walk hbuilt⟩

end Dendrogram

end ModuleRecovery
