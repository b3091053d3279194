import ModuleRecovery.Clustering.Dendrogram
import ModuleRecovery.Clustering.Linkage
import ModuleRecovery.Collections.OrderedSet
import ModuleRecovery.Collections.Pairs

set_option relaxedAutoImplicit false
set_option autoImplicit false

/-!
# Agglomerative clustering

Every item starts as a cluster of its own. As long as there are several clusters, the two
most similar ones are merged: of several equally similar pairs, the first in list order. The
merged cluster goes to the end of the list, and its height is one minus the similarity.

## Main definitions

* `ModuleRecovery.Cluster` — a cluster with the positions of its items.
* `ModuleRecovery.closestPair` — the two clusters to merge next.
* `ModuleRecovery.cluster` — the dendrogram of a list of items.
-/

universe u

namespace ModuleRecovery

/-- A cluster of items of a list of length `n`. -/
structure Cluster (α : Type u) (n : Nat) where
  /-- The merges that led to the cluster. -/
  node : Dendrogram α
  /-- The positions of its items, in the order of the leaves. -/
  leaves : List (Fin n)

/-- Two clusters to merge, by their positions in the list of clusters. -/
structure MergeChoice where
  /-- The position of the cluster that becomes the left child. -/
  left : Nat
  /-- The position of the cluster that becomes the right child. -/
  right : Nat
  /-- The similarity of the two clusters. -/
  similarity : Float

namespace MergeChoice

/-- The choice before any two clusters were compared. -/
def start : MergeChoice :=
  ⟨0, 1, negativeInfinity⟩

/-- Take the clusters at `i` and `j` instead, if they are more similar. -/
def offer (choice : MergeChoice) (i j : Nat) (similarity : Float) : MergeChoice :=
  if choice.similarity < similarity then ⟨i, j, similarity⟩ else choice

end MergeChoice

variable {α : Type u} {n : Nat}

/-- The first pair of clusters whose similarity no other pair exceeds. -/
def closestPair (linkage : Linkage) (sims : SimilarityMatrix n) (cs : List (Cluster α n)) :
    MergeChoice :=
  (unorderedPairs cs.zipIdx).foldl
    (fun choice p => choice.offer p.1.2 p.2.2 (linkage.between sims p.1.1.leaves p.2.1.leaves))
    .start

/-- Merge the two clusters of a choice, and move the result to the end of the list. -/
def mergeChosen (cs : List (Cluster α n)) (choice : MergeChoice) : List (Cluster α n) :=
  match cs[choice.left]?, cs[choice.right]? with
  | some l, some r =>
    (cs.eraseIdx choice.right).eraseIdx choice.left ++
      [{ node := l.node.merge r.node (1 - clampUnit choice.similarity)
         leaves := l.leaves ++ r.leaves }]
  | _, _ => cs

/-- Carry out the given number of merges. -/
def mergeRounds (linkage : Linkage) (sims : SimilarityMatrix n) :
    Nat → List (Cluster α n) → List (Cluster α n)
  | 0, cs => cs
  | k + 1, cs => mergeRounds linkage sims k (mergeChosen cs (closestPair linkage sims cs))

/-- A cluster for every item of a list. -/
def singletons (items : List α) : List (Cluster α items.length) :=
  (List.finRange items.length).map fun i => { node := .leaf (items.get i), leaves := [i] }

/-- The dendrogram of a list of items without repetitions; none for the empty list. -/
def clusterDistinct (items : List α) (similarity : α → α → Float) (linkage : Linkage) :
    Option (Dendrogram α) :=
  let sims := SimilarityMatrix.ofList items similarity
  (mergeRounds linkage sims (items.length - 1) (singletons items)).head?.map Cluster.node

/-- The dendrogram of a list of items, each taken at its first occurrence. -/
def cluster [DecidableEq α] (items : List α) (similarity : α → α → Float) (linkage : Linkage) :
    Option (Dendrogram α) :=
  clusterDistinct (OrderedSet.ofList items).toList similarity linkage

end ModuleRecovery
