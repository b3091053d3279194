import ModuleRecovery.Graph.Directed
import ModuleRecovery.Model.Index

set_option relaxedAutoImplicit false
set_option autoImplicit false

/-!
# Nodes for code outside the model

A call may land outside the model. The graphs then show its target as a node whose label
starts with a mark.

## Main definitions

* `ModuleRecovery.externalNode` — the node that stands for a target outside the model.
* `ModuleRecovery.isExternal` — whether a label carries the mark.
-/

namespace ModuleRecovery

/-- What the label of every node outside the model starts with. -/
def externalMark : String :=
  "[EXT] "

/-- The node that stands for `target`, which lies outside the model. -/
def externalNode (target : String) : String :=
  externalMark ++ target

/-- Whether a label carries the mark of the nodes outside the model. -/
def isExternal (label : String) : Bool :=
  startsWith externalMark label

end ModuleRecovery
