set_option relaxedAutoImplicit false
set_option autoImplicit false

/-!
# Dendrograms

A dendrogram is a binary tree that records how single items were merged into one cluster.
A merge carries its height and the list of the items below it.

## Main definitions

* `ModuleRecovery.Dendrogram` — a dendrogram.
* `ModuleRecovery.Dendrogram.merge` — the merge of two clusters.
* `ModuleRecovery.Dendrogram.MergeBuilt` — the dendrograms built from leaves by merges.
* `ModuleRecovery.Dendrogram.heights` — the heights of all merges.

## Main results

* `ModuleRecovery.Dendrogram.members_eq_leaves` — the members of a merge are its leaves.
-/

universe u

namespace ModuleRecovery

/-- A tree of merges over single items. -/
inductive Dendrogram (α : Type u) where
  /-- A single item. -/
  | leaf (item : α)
  /-- A merge at a height, with the items below it. -/
  | internal (left right : Dendrogram α) (height : Float) (members : List α)

namespace Dendrogram

variable {α : Type u}

/-- Whether the node is a single item. -/
def isLeaf : Dendrogram α → Bool
  | leaf _ => true
  | internal .. => false

/-- The height of a merge; a single item has height zero. -/
def height : Dendrogram α → Float
  | leaf _ => 0
  | internal _ _ h _ => h

/-- The items below a node. -/
def members : Dendrogram α → List α
  | leaf a => [a]
  | internal _ _ _ ms => ms

/-- The two nodes that a merge joins. -/
def children? : Dendrogram α → Option (Dendrogram α × Dendrogram α)
  | leaf _ => none
  | internal l r _ _ => some (l, r)

/-- The merge of two clusters at the given height. -/
def merge (left right : Dendrogram α) (height : Float) : Dendrogram α :=
  internal left right height (left.members ++ right.members)

/-- The dendrograms that arise from single items by merges. -/
inductive MergeBuilt : Dendrogram α → Prop where
  | leaf (a : α) : MergeBuilt (leaf a)
  | merge {l r : Dendrogram α} (h : Float) :
      MergeBuilt l → MergeBuilt r → MergeBuilt (l.merge r h)

/-- The items at the leaves, from left to right. -/
def leaves : Dendrogram α → List α
  | leaf a => [a]
  | internal l r _ _ => l.leaves ++ r.leaves

/-- How many items lie below a node. -/
def leafCount (t : Dendrogram α) : Nat :=
  t.members.length

/-- How many merges a dendrogram records. -/
def mergeCount : Dendrogram α → Nat
  | leaf _ => 0
  | internal l r _ _ => 1 + l.mergeCount + r.mergeCount

/-- How many nodes a dendrogram has. -/
def nodeCount : Dendrogram α → Nat
  | leaf _ => 1
  | internal l r _ _ => 1 + l.nodeCount + r.nodeCount

/-- The heights of all merges below a stack of nodes, the top of the stack first. -/
def heightsOfStack : List (Dendrogram α) → List Float
  | [] => []
  | leaf _ :: stack => heightsOfStack stack
  | internal l r h _ :: stack => h :: heightsOfStack (l :: r :: stack)
termination_by stack => stack.foldr (fun t n => t.nodeCount + n) 0
decreasing_by
  all_goals simp [nodeCount]
  omega

/-- The heights of all merges, each merge before those of its left and right side. -/
def heights (t : Dendrogram α) : List Float :=
  heightsOfStack [t]

/-- The members recorded by merges are the items at the leaves. -/
theorem members_eq_leaves {t : Dendrogram α} (ht : t.MergeBuilt) : t.members = t.leaves := by
  induction ht with
  | leaf a => rfl
  | @merge l r h _ _ ihl ihr =>
    change l.members ++ r.members = l.leaves ++ r.leaves
    rw [ihl, ihr]

end Dendrogram

end ModuleRecovery
