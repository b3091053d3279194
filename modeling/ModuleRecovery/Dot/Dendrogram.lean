import ModuleRecovery.Dot.Label

set_option relaxedAutoImplicit false
set_option autoImplicit false

/-!
# Drawings of dendrograms

A dendrogram is drawn from top to bottom. Its nodes are numbered as they are met, a node
before the nodes below it. A merge shows its height, and a single item has the colour of its
module. The two edges of a merge follow the statements of everything below it.

## Main definitions

* `ModuleRecovery.TreeStatement` — a statement of the drawing.
* `ModuleRecovery.treeStatements` — the statements of a dendrogram.
* `ModuleRecovery.drawDendrogram` — the drawing of a dendrogram.
-/

namespace ModuleRecovery

/-- A statement in the drawing of a dendrogram. -/
inductive TreeStatement where
  /-- The node of a single item. -/
  | item (number : Nat) (label color : String)
  /-- The node of a merge. -/
  | merge (number : Nat) (height : Float)
  /-- The edge from a merge to one of its two sides. -/
  | edge (parent child : Nat)

namespace TreeStatement

/-- The name of the node with the given number. -/
def nodeName (number : Nat) : String :=
  "n" ++ String.ofList (decimalDigits number)

/-- The line of a statement. -/
def line : TreeStatement → String
  | item number label color =>
    "    " ++ nodeName number ++ " [label=" ++ quoted label ++
      ", shape=box, style=filled, fillcolor=\"" ++ color ++ "\"];"
  | merge number height =>
    "    " ++ nodeName number ++ " [label=\"" ++ fixedPlaces 3 height ++ "\", shape=circle];"
  | edge parent child => "    " ++ nodeName parent ++ " -> " ++ nodeName child ++ ";"

end TreeStatement

/-- The statements of a dendrogram whose root gets the number `next`, and the next number
that is free. -/
def treeStatements (color : String → String) :
    Dendrogram String → Nat → List TreeStatement × Nat
  | .leaf item, next => ([.item next item (color item)], next + 1)
  | .internal left right height _, next =>
    let (leftStatements, afterLeft) := treeStatements color left (next + 1)
    let (rightStatements, afterRight) := treeStatements color right afterLeft
    (.merge next height :: leftStatements ++ rightStatements ++
      [.edge next (next + 1), .edge next afterLeft], afterRight)

/-- The drawing of a dendrogram, coloured by a partition if there is one. -/
def drawDendrogram (root : Dendrogram String) (partition : Option (Partition String)) :
    String :=
  joinLines
    (["digraph Dendrogram \x7b",
      "    rankdir=TB;",
      "    node [fontname=\"Helvetica\", fontsize=12];",
      ""] ++
    (treeStatements (colorOf partition) root 0).1.map TreeStatement.line ++ ["\x7d"])

end ModuleRecovery
