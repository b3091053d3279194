import ModuleRecovery.Coupling.Scan

set_option relaxedAutoImplicit false
set_option autoImplicit false

/-!
# Table of edge counts

One pass over the resolved edges of a method graph counts them all, and the edges between
any two different classes. The coupling of two classes is then a look-up. A pair of classes
is entered in lexical order, so an edge counts the same in both directions.

## Main definitions

* `ModuleRecovery.ClassPair` — an unordered pair of class names.
* `ModuleRecovery.CouplingTable` — the counts.
* `ModuleRecovery.CouplingTable.ofGraph` — the counts of a method graph.
* `ModuleRecovery.CouplingTable.coupling` — the coupling of two classes.
-/

namespace ModuleRecovery

/-- An unordered pair of class names, in lexical order. -/
structure ClassPair where
  /-- The lexically smaller name. -/
  low : String
  /-- The lexically greater name. -/
  high : String
deriving DecidableEq

/-- The unordered pair of two names. -/
def ClassPair.of (a b : String) : ClassPair :=
  if a ≤ b then ⟨a, b⟩ else ⟨b, a⟩

/-- Counts of the resolved edges of a method graph. -/
structure CouplingTable where
  /-- How many edges are resolved. -/
  resolvedEdges : Nat := 0
  /-- How many of them join each pair of different classes. -/
  crossing : OrderedMap ClassPair Nat := ∅

namespace CouplingTable

/-- Count one more resolved edge, given the owners of its ends. -/
def record (table : CouplingTable) (owners : String × String) : CouplingTable where
  resolvedEdges := table.resolvedEdges + 1
  crossing :=
    if owners.1 = owners.2 then table.crossing
    else table.crossing.upsert (.of owners.1 owners.2) fun count => count.getD 0 + 1

/-- Count a list of resolved edges, given the owners of their ends. -/
def ofOwners (owners : List (String × String)) : CouplingTable :=
  owners.foldl record {}

/-- Count the resolved edges of a method graph. -/
def ofGraph (resolver : OwnerResolver) (g : Digraph String) : CouplingTable :=
  ofOwners (edgeOwners resolver g)

/-- Count the resolved edges of a method graph under the resolver of a model. -/
def ofClasses (classes : List ClassRecord) (g : Digraph String) : CouplingTable :=
  ofGraph (.ofClasses .lastRegistered classes) g

/-- How many resolved edges join the classes named `a` and `b`. -/
def edgesBetween (table : CouplingTable) (a b : String) : Nat :=
  if a = b then 0 else (table.crossing.get? (.of a b)).getD 0

/-- The coupling of the classes named `a` and `b`. -/
def coupling (table : CouplingTable) (a b : String) : Float :=
  share (table.edgesBetween a b) table.resolvedEdges

end CouplingTable

end ModuleRecovery
