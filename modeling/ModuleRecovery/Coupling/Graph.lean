import ModuleRecovery.Collections.Pairs
import ModuleRecovery.Coupling.Table
import ModuleRecovery.Graph.Weighted

set_option relaxedAutoImplicit false
set_option autoImplicit false

/-!
# Coupling graph

The coupling graph has the classes of a model as its nodes, and an edge between any two
different classes with positive coupling.

## Main definitions

* `ModuleRecovery.classNames` — the resolved names of a model, each once.
* `ModuleRecovery.couplingGraph` — the coupling graph of a model.
-/

namespace ModuleRecovery

/-- The resolved names of a list of class records, in order of first occurrence. -/
def classNames (classes : List ClassRecord) : OrderedSet String :=
  .ofList (classes.map ClassRecord.resolvedName)

/-- The coupling graph of the given classes under a table of counts. -/
def couplingGraph (table : CouplingTable) (names : List String) : WeightedGraph String :=
  let edges := (unorderedPairs names).map fun p => ⟨p.1, p.2, table.coupling p.1 p.2⟩
  ((∅ : WeightedGraph String).addNodes names).addEdges edges

/-- The coupling graph of a model and a method graph. -/
def couplingGraphOfClasses (g : Digraph String) (classes : List ClassRecord) :
    WeightedGraph String :=
  couplingGraph (.ofClasses classes g) (classNames classes).toList

end ModuleRecovery
