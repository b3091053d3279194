import ModuleRecovery.Graph.Directed
import ModuleRecovery.Owner.Resolver

set_option relaxedAutoImplicit false
set_option autoImplicit false

/-!
# Coupling of two classes

The coupling of two classes is the share of the resolved edges of a method graph that join
them, in either direction. An edge is resolved when both its ends have an owner in the
model; the number of all resolved edges is the denominator for every pair of classes.

## Main definitions

* `ModuleRecovery.share` — the quotient of two counts.
* `ModuleRecovery.edgeOwners` — the owners of the two ends of each resolved edge.
* `ModuleRecovery.couplingByScan` — the coupling of two classes, by a scan of all edges.
-/

namespace ModuleRecovery

/-- The quotient of two counts; nothing is shared among zero edges. -/
def share (part whole : Nat) : Float :=
  if whole = 0 then 0 else Float.ofNat part / Float.ofNat whole

/-- The owners of the ends of an edge, if both ends have one. -/
def ownersOfEdge? (resolver : OwnerResolver) (e : String × String) : Option (String × String) :=
  match resolveOwner? resolver e.1, resolveOwner? resolver e.2 with
  | some source, some target => some (source, target)
  | _, _ => none

/-- The owners of the ends of each resolved edge, in the order of the edges. -/
def edgeOwners (resolver : OwnerResolver) (g : Digraph String) : List (String × String) :=
  g.edges.filterMap (ownersOfEdge? resolver)

/-- Whether a pair of owners consists of `a` and `b`, in either order. -/
def isBetween (a b : String) (owners : String × String) : Bool :=
  (owners.1 = a && owners.2 = b) || (owners.1 = b && owners.2 = a)

/-- The coupling of the classes named `a` and `b`, by a scan of all edges. -/
def couplingByScan (g : Digraph String) (resolver : OwnerResolver) (a b : String) : Float :=
  if a = b then 0
  else
    let owners := edgeOwners resolver g
    share (owners.countP (isBetween a b)) owners.length

/-- The coupling of two class records under the resolver of a model. -/
def coupling (g : Digraph String) (classes : List ClassRecord) (a b : ClassRecord) : Float :=
  couplingByScan g (.ofClasses .lastRegistered classes) a.resolvedName b.resolvedName

end ModuleRecovery
