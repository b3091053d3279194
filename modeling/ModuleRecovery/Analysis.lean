import ModuleRecovery.CallGraph.Classes
import ModuleRecovery.CallGraph.Methods
import ModuleRecovery.Clustering.Agglomerate
import ModuleRecovery.Coupling.Graph
import ModuleRecovery.Partition
import ModuleRecovery.Settings.Basic

set_option relaxedAutoImplicit false
set_option autoImplicit false

/-!
# Analysis of a model

An analysis builds the call graphs of a model, measures the coupling of its classes,
clusters them and cuts the dendrogram into modules. The coupling is measured on the call
graph of methods.

## Main definitions

* `ModuleRecovery.AnalysisReport` — what an analysis finds.
* `ModuleRecovery.validateClasses` — refuse a model with a nameless class.
* `ModuleRecovery.analyze` — the analysis.
-/

namespace ModuleRecovery

/-- What an analysis finds. -/
structure AnalysisReport where
  /-- The resolved class names, each once. -/
  classes : List String
  /-- The call graph of methods. -/
  methodGraph : Digraph String
  /-- The call graph of classes. -/
  classGraph : Digraph String
  /-- The coupling graph of the classes. -/
  couplingGraph : WeightedGraph String
  /-- The dendrogram of the classes; none for an empty model. -/
  dendrogram : Option (Dendrogram String)
  /-- The modules; none for an empty model. -/
  partition : Option (Partition String)
  /-- The linkage of the clustering. -/
  linkage : Linkage
  /-- The average coupling that a module should reach. -/
  cohesionThreshold : Float

/-- Refuse a list of class records in which some resolved name is empty. -/
def validateClasses (classes : List ClassRecord) : Except AnalysisError Unit :=
  match classes.findIdx? (·.resolvedName = "") with
  | some i => .error (.namelessClass i)
  | none => .ok ()

/-- The partition of a dendrogram, if there is one. -/
def partitionOf (dendrogram : Option (Dendrogram String)) (coupling : String → String → Float)
    (threshold : Float) : Except AnalysisError (Option (Partition String)) :=
  match dendrogram with
  | none => .ok none
  | some root => (identify root coupling threshold).map some

/-- Analyse a model. -/
def analyze (classes : List ClassRecord) (settings : Settings) :
    Except AnalysisError AnalysisReport := do
  settings.validate
  validateClasses classes
  let methods := methodGraph classes settings.includeExternal
  let table := CouplingTable.ofClasses classes methods
  let names := (classNames classes).toList
  let dendrogram := cluster names table.coupling settings.linkage
  let partition ← partitionOf dendrogram table.coupling settings.cohesionThreshold
  return {
    classes := names
    methodGraph := methods
    classGraph := classGraph classes settings.includeExternal
    couplingGraph := couplingGraph table names
    dendrogram
    partition
    linkage := settings.linkage
    cohesionThreshold := settings.cohesionThreshold }

end ModuleRecovery
