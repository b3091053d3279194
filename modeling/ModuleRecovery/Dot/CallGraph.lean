import ModuleRecovery.CallGraph.Basic
import ModuleRecovery.Dot.Label

set_option relaxedAutoImplicit false
set_option autoImplicit false

/-!
# Drawings of call graphs

A call graph is drawn from left to right: first a line for each node, then, after an empty
line, one for each edge. Nodes outside the model are dashed.

## Main definitions

* `ModuleRecovery.drawCallGraph` — the drawing of a call graph.
-/

namespace ModuleRecovery

/-- The style and the fill colour of a node. -/
def nodeStyle (label : String) : String × String :=
  if isExternal label then ("filled,dashed", "#6c7086") else ("filled", "#89b4fa")

/-- The line of a node. -/
def nodeLine (label : String) : String :=
  "    " ++ quoted label ++ " [style=\"" ++ (nodeStyle label).1 ++ "\", fillcolor=\"" ++
    (nodeStyle label).2 ++ "\"];"

/-- The line of an edge. -/
def edgeLine (e : String × String) : String :=
  "    " ++ quoted e.1 ++ " -> " ++ quoted e.2 ++ ";"

/-- The drawing of a call graph under a name. -/
def drawCallGraph (name : String) (g : Digraph String) : String :=
  joinLines
    (["digraph " ++ name ++ " \x7b",
      "    rankdir=LR;",
      "    node [fontname=\"Helvetica\", fontsize=12, shape=box];",
      "    edge [fontname=\"Helvetica\", fontsize=10];",
      ""] ++
    g.nodes.toList.map nodeLine ++ [""] ++ g.edges.map edgeLine ++ ["\x7d"])

end ModuleRecovery
