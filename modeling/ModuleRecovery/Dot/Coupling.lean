import ModuleRecovery.Dot.Label
import ModuleRecovery.Graph.Weighted

set_option relaxedAutoImplicit false
set_option autoImplicit false

/-!
# Drawings of coupling graphs

The modules are drawn as boxes around their members, and an edge shows its weight. Edges
below a least weight are left out of the drawing; their ends stay.

## Main definitions

* `ModuleRecovery.drawCoupling` — the drawing of a coupling graph.
-/

namespace ModuleRecovery

/-- The lines of the module at a position. -/
def moduleLines (m : Module String) (i : Nat) : List String :=
  let number := String.ofList (decimalDigits i)
  ["    subgraph cluster_" ++ number ++ " \x7b",
   "        label=\"module " ++ number ++ " (" ++ fixedPlaces 3 m.averageCoupling ++ ")\";",
   "        style=filled; color=\"" ++ moduleColor i ++ "\";"] ++
  m.members.map (fun member => "        " ++ quoted member ++ ";") ++ ["    \x7d"]

/-- The line of an edge. -/
def weightedEdgeLine (e : WeightedEdge String) : String :=
  "    " ++ quoted e.first ++ " -- " ++ quoted e.second ++ " [label=\"" ++
    fixedPlaces 3 e.weight ++ "\"];"

/-- The drawing of a coupling graph, with the modules of a partition if there is one. -/
def drawCoupling (g : WeightedGraph String) (partition : Option (Partition String))
    (leastWeight : Float) : String :=
  let modules := (partition.map Partition.modules).getD []
  joinLines
    (["graph Coupling \x7b",
      "    node [fontname=\"Helvetica\", fontsize=12, shape=box, style=filled, fillcolor=\"" ++
        unassignedColor ++ "\"];",
      "    edge [fontname=\"Helvetica\", fontsize=10];",
      ""] ++
    modules.zipIdx.flatMap (fun p => moduleLines p.1 p.2) ++
    g.nodes.toList.map (fun node => "    " ++ quoted node ++ ";") ++ [""] ++
    (g.edges.filter (fun e => decide (leastWeight ≤ e.weight))).map weightedEdgeLine ++
    ["\x7d"])

end ModuleRecovery
