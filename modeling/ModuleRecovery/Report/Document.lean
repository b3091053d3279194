import ModuleRecovery.Analysis
import ModuleRecovery.Json.Writer

set_option relaxedAutoImplicit false
set_option autoImplicit false

/-!
# Report documents

A report is written as one JSON document. The document lists nodes and edges only, so it
can hold graphs that no analysis finds.

## Main definitions

* `ModuleRecovery.ReportDocument` — the contents of a report document.
* `ModuleRecovery.ReportDocument.ofReport` — the document of a report.
* `ModuleRecovery.ReportDocument.toJson` — the document as a value.
* `ModuleRecovery.writeReport` — the text of a report file.
-/

namespace ModuleRecovery

/-- A node of a call graph in a document. -/
structure NodeEntry where
  /-- The label. -/
  id : String
  /-- Whether the node lies outside the model. -/
  external : Bool

/-- A call graph in a document. -/
structure GraphDocument where
  /-- The nodes. -/
  nodes : List NodeEntry
  /-- The edges, each from its source to its target. -/
  edges : List (String × String)

/-- A coupling graph in a document. -/
structure CouplingDocument where
  /-- The nodes. -/
  nodes : List String
  /-- The edges. -/
  edges : List (WeightedEdge String)

/-- The contents of a report document. -/
structure ReportDocument where
  /-- The class names. -/
  classes : List String
  /-- The name of the linkage. -/
  linkage : String
  /-- The cohesion threshold. -/
  cohesionThreshold : Float
  /-- The call graph of methods. -/
  methodGraph : GraphDocument
  /-- The call graph of classes. -/
  classGraph : GraphDocument
  /-- The coupling graph. -/
  couplingGraph : CouplingDocument
  /-- The dendrogram. -/
  dendrogram : Option (Dendrogram String)
  /-- The modules. -/
  modules : Option (Partition String)

/-- A call graph, with its nodes outside the model flagged. -/
def GraphDocument.ofDigraph (g : Digraph String) : GraphDocument where
  nodes := g.nodes.toList.map fun id => ⟨id, isExternal id⟩
  edges := g.edges

/-- A coupling graph. -/
def CouplingDocument.ofGraph (g : WeightedGraph String) : CouplingDocument where
  nodes := g.nodes.toList
  edges := g.edges

/-- The document of a report. -/
def ReportDocument.ofReport (r : AnalysisReport) : ReportDocument where
  classes := r.classes
  linkage := r.linkage.name
  cohesionThreshold := r.cohesionThreshold
  methodGraph := .ofDigraph r.methodGraph
  classGraph := .ofDigraph r.classGraph
  couplingGraph := .ofGraph r.couplingGraph
  dendrogram := r.dendrogram
  modules := r.partition

/-- A node as a value. -/
def NodeEntry.toJson (n : NodeEntry) : Json :=
  .object [("id", .string n.id), ("external", .bool n.external)]

/-- A call graph as a value. -/
def GraphDocument.toJson (g : GraphDocument) : Json :=
  .object [
    ("nodes", .array (g.nodes.map NodeEntry.toJson)),
    ("edges", .array (g.edges.map fun e =>
      .object [("from", .string e.1), ("to", .string e.2)]))]

/-- An edge of a coupling graph as a value. -/
def WeightedEdge.toJson (e : WeightedEdge String) : Json :=
  .object [("a", .string e.first), ("b", .string e.second), ("weight", .ofFloat e.weight)]

/-- A coupling graph as a value. -/
def CouplingDocument.toJson (g : CouplingDocument) : Json :=
  .object [("nodes", .ofStrings g.nodes), ("edges", .array (g.edges.map WeightedEdge.toJson))]

/-- A dendrogram as a value; the member `kind` tells leaves and merges apart. -/
def Dendrogram.toJson : Dendrogram String → Json
  | .leaf item => .object [("kind", .string "leaf"), ("class", .string item)]
  | .internal left right height members =>
    .object [
      ("kind", .string "internal"),
      ("height", .ofFloat height),
      ("members", .ofStrings members),
      ("left", left.toJson),
      ("right", right.toJson)]

/-- A module as a value. -/
def Module.toJson (m : Module String) : Json :=
  .object [("members", .ofStrings m.members), ("average_coupling", .ofFloat m.averageCoupling)]

/-- A partition as a value. -/
def Partition.toJson (p : Partition String) : Json :=
  .object [("feasible", .bool p.feasible), ("modules", .array (p.modules.map Module.toJson))]

/-- A report document as a value. -/
def ReportDocument.toJson (d : ReportDocument) : Json :=
  .object [
    ("classes", .ofStrings d.classes),
    ("linkage", .string d.linkage),
    ("cohesion_threshold", .ofFloat d.cohesionThreshold),
    ("method_graph", d.methodGraph.toJson),
    ("class_graph", d.classGraph.toJson),
    ("coupling_graph", d.couplingGraph.toJson),
    ("dendrogram", .ofOption Dendrogram.toJson d.dendrogram),
    ("modules", .ofOption Partition.toJson d.modules)]

/-- The text of a report document without blanks. -/
def ReportDocument.compactText (d : ReportDocument) : String :=
  String.ofList d.toJson.compact

/-- The text of a report file. -/
def writeReport (r : AnalysisReport) : String :=
  String.ofList ((ReportDocument.ofReport r).toJson.pretty 0)

end ModuleRecovery
