import ModuleRecovery.CallGraph.Basic

set_option relaxedAutoImplicit false
set_option autoImplicit false

/-!
# Call graph of methods

The nodes of this graph are the labels of all methods, whether they call or not. A call
whose callee has the key of a method points at that method's label. Any other call is
dropped, or lands on a node outside the model where such nodes are wanted. A call without a
callee key is always dropped.

## Main definitions

* `ModuleRecovery.methodGraph` — the call graph of methods.
-/

namespace ModuleRecovery

/-- The node that a call points at. -/
def methodTarget? (index : ModelIndex) (includeExternal : Bool) (d : CallRecord) :
    Option String := do
  let key ← d.calleeKey?
  match index.labelForKey? key with
  | some label => some label
  | none => if includeExternal then some (externalNode d.externalSignature) else none

/-- The edges of the calls in one method of the class named `owner`. -/
def methodEdges (index : ModelIndex) (includeExternal : Bool) (owner : String)
    (m : MethodRecord) : List (String × String) :=
  match index.labelForKey? (MethodNode.ofMethod owner m).key with
  | none => []
  | some source => (m.calls.filterMap (methodTarget? index includeExternal)).map (source, ·)

/-- The call graph of methods, with or without nodes outside the model. -/
def methodGraph (classes : List ClassRecord) (includeExternal : Bool) : Digraph String :=
  let index := ModelIndex.ofClasses classes
  let calls := classes.flatMap fun c =>
    c.methods.flatMap (methodEdges index includeExternal c.resolvedName)
  ((∅ : Digraph String).addNodes index.methodLabels).addEdges calls

end ModuleRecovery
