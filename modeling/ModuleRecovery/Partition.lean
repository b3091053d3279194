import ModuleRecovery.Clustering.Dendrogram
import ModuleRecovery.Clustering.Similarity
import ModuleRecovery.Collections.Pairs
import ModuleRecovery.Failure

set_option relaxedAutoImplicit false
set_option autoImplicit false

/-!
# Partition into modules

A partition cuts a dendrogram into modules. It starts with the root alone. As long as some
module that can be split has an average coupling below the cohesion threshold, the one with
the least average is replaced by its two children. With `M` leaves there may be at most
`max 1 (M / 2)` modules; a partition that would need more is not feasible.

## Main definitions

* `ModuleRecovery.averagePairwise` — the average coupling within a list of items.
* `ModuleRecovery.Partition` — modules, and whether the threshold could be met.
* `ModuleRecovery.identify` — the partition of a dendrogram.
-/

universe u

namespace ModuleRecovery

/-- A set of items that belong together. -/
structure Module (α : Type u) where
  /-- The items. -/
  members : List α
  /-- The average coupling of two different items; one for a single item. -/
  averageCoupling : Float

/-- A division of items into modules. -/
structure Partition (α : Type u) where
  /-- The modules. -/
  modules : List (Module α)
  /-- Whether every module that can be split meets the cohesion threshold. -/
  feasible : Bool

namespace Partition

variable {α : Type u}

/-- The average couplings of the modules. -/
def averageCouplings (p : Partition α) : List Float :=
  p.modules.map Module.averageCoupling

/-- The position of the first module that contains `a`. -/
def moduleOf? [DecidableEq α] (p : Partition α) (a : α) : Option Nat :=
  p.modules.findIdx? fun m => decide (a ∈ m.members)

/-- How many modules there are. -/
def size (p : Partition α) : Nat :=
  p.modules.length

/-- Whether there is no module. -/
def isEmpty (p : Partition α) : Bool :=
  p.modules.isEmpty

end Partition

variable {α : Type u}

/-- The average of the clamped couplings of all pairs of items; one for a single item. -/
def averagePairwise (coupling : α → α → Float) (members : List α) : Float :=
  if members.length ≤ 1 then 1
  else
    let pairs := unorderedPairs members
    pairs.foldl (fun sum p => sum + clampUnit (coupling p.1 p.2)) 0 / Float.ofNat pairs.length

/-- A subtree that may become a module, with its average coupling. -/
structure Candidate (α : Type u) where
  /-- The subtree. -/
  node : Dendrogram α
  /-- The average coupling of its items. -/
  average : Float

namespace Candidate

/-- The candidate of a subtree. -/
def ofNode (coupling : α → α → Float) (node : Dendrogram α) : Candidate α :=
  ⟨node, averagePairwise coupling node.members⟩

/-- Whether the candidate falls short of the threshold and can be split. -/
def wantsSplit (threshold : Float) (c : Candidate α) : Bool :=
  !(threshold ≤ c.average || c.node.isLeaf)

/-- The module of a candidate. -/
def toModule (c : Candidate α) : Module α :=
  ⟨c.node.members, c.average⟩

/-- Keep the least average met so far, with its position; of equal ones the first. -/
def keepWorst (threshold : Float) (worst : Option (Nat × Float)) (c : Candidate α × Nat) :
    Option (Nat × Float) :=
  if c.1.wantsSplit threshold then
    match worst with
    | none => some (c.2, c.1.average)
    | some (i, least) => if c.1.average < least then some (c.2, c.1.average) else some (i, least)
  else worst

/-- The position of the first candidate with the least average among those to be split. -/
def worst? (threshold : Float) (cs : List (Candidate α)) : Option Nat :=
  (cs.zipIdx.foldl (keepWorst threshold) none).map Prod.fst

/-- Replace the candidate at a position by its two children, at the end of the list. -/
def split (coupling : α → α → Float) (cs : List (Candidate α)) (i : Nat) :
    List (Candidate α) :=
  match cs[i]?.bind (·.node.children?) with
  | some (l, r) => cs.eraseIdx i ++ [ofNode coupling l, ofNode coupling r]
  | none => cs

/-- Split candidates until none falls short of the threshold, or there is no room for
another split. -/
def refine (coupling : α → α → Float) (threshold : Float) :
    Nat → List (Candidate α) → Partition α
  | room, cs =>
    match worst? threshold cs, room with
    | none, _ => ⟨cs.map toModule, true⟩
    | some _, 0 => ⟨cs.map toModule, false⟩
    | some i, room + 1 => refine coupling threshold room (split coupling cs i)

end Candidate

/-- The greatest number of modules for a dendrogram with the given number of leaves. -/
def maxModules (leafCount : Nat) : Nat :=
  max 1 (leafCount / 2)

/-- The partition of a dendrogram under a finite cohesion threshold. -/
def identify (root : Dendrogram α) (coupling : α → α → Float) (threshold : Float) :
    Except AnalysisError (Partition α) :=
  if threshold.isFinite then
    .ok (Candidate.refine coupling threshold (maxModules root.leafCount - 1)
      [Candidate.ofNode coupling root])
  else .error (.thresholdNotFinite threshold)

end ModuleRecovery
