import ModuleRecovery.CallGraph.Basic

set_option relaxedAutoImplicit false
set_option autoImplicit false

/-!
# Call graph of classes

The nodes of this graph are the resolved names of the classes. A call points at the class
it lands on; a call of a class to itself, and one that lands on no known type, is dropped.
A target outside the model is dropped, or becomes a node outside the model where such nodes
are wanted.

## Main definitions

* `ModuleRecovery.classGraph` — the call graph of classes.
-/

namespace ModuleRecovery

/-- The node that a call points at. -/
def classTarget? (index : ModelIndex) (includeExternal : Bool) (d : CallRecord) :
    Option String := do
  let target ← d.targetType?
  if index.containsClass target then some target
  else if includeExternal then some (externalNode target)
  else none

/-- The edges of the calls in one class. -/
def classEdges (index : ModelIndex) (includeExternal : Bool) (c : ClassRecord) :
    List (String × String) :=
  let targets := (c.methods.flatMap (·.calls)).filterMap (classTarget? index includeExternal)
  (targets.filter (· ≠ c.resolvedName)).map (c.resolvedName, ·)

/-- The call graph of classes, with or without nodes outside the model. -/
def classGraph (classes : List ClassRecord) (includeExternal : Bool) : Digraph String :=
  let index := ModelIndex.ofClasses classes
  ((∅ : Digraph String).addNodes index.classes.toList).addEdges
    (classes.flatMap (classEdges index includeExternal))

end ModuleRecovery
