import ModuleRecovery.Clustering.Similarity
import ModuleRecovery.Failure
import ModuleRecovery.Text.Blank

set_option relaxedAutoImplicit false
set_option autoImplicit false

/-!
# Linkages

A linkage derives the similarity of two clusters from the similarities of their items.

## Main definitions

* `ModuleRecovery.Linkage` — the three linkages.
* `ModuleRecovery.Linkage.parse` — read the name of a linkage.
* `ModuleRecovery.Linkage.between` — the similarity of two clusters.
-/

namespace ModuleRecovery

/-- How the similarity of two clusters follows from the similarities of their items. -/
inductive Linkage where
  /-- The greatest similarity of an item of one and an item of the other. -/
  | single
  /-- The least similarity of an item of one and an item of the other. -/
  | complete
  /-- The mean of these similarities. -/
  | average
deriving DecidableEq

instance : Inhabited Linkage := ⟨.single⟩

/-- The greater of two numbers. -/
def greater (x y : Float) : Float :=
  if x < y then y else x

/-- The lesser of two numbers. -/
def lesser (x y : Float) : Float :=
  if y < x then y else x

namespace Linkage

/-- The name of a linkage. -/
def name : Linkage → String
  | single => "single"
  | complete => "complete"
  | average => "average"

/-- The linkage of exactly the given name. -/
def ofName? (s : String) : Option Linkage :=
  [single, complete, average].find? (·.name = s)

/-- Read the name of a linkage, in any case and with blanks around it. -/
def parse (s : String) : Except AnalysisError Linkage :=
  match ofName? (String.ofList (lowerCase (trim s.toList))) with
  | some linkage => .ok linkage
  | none => .error (.unknownLinkage s)

/-- The similarity of two clusters whose items have the given similarities. -/
def combine : Linkage → List Float → Float
  | single, xs => xs.foldl greater negativeInfinity
  | complete, xs => xs.foldl lesser positiveInfinity
  | average, xs => if xs.isEmpty then 0 else xs.foldl (· + ·) 0 / Float.ofNat xs.length

/-- The similarity of two clusters, given by the positions of their items. -/
def between {n : Nat} (linkage : Linkage) (sims : SimilarityMatrix n) (a b : List (Fin n)) :
    Float :=
  clampUnit (linkage.combine (a.flatMap fun i => b.map fun j => sims.get i j))

end Linkage

end ModuleRecovery
