import ModuleRecovery.Collections.OrderedMap
import ModuleRecovery.Model.Identity

set_option relaxedAutoImplicit false
set_option autoImplicit false

/-!
# Index of a model

The index lists the classes of a model, the pairs of simple and resolved names, and the
label of each method key. A key keeps the place of the first method that has it and the
label of the last one.

## Main definitions

* `ModuleRecovery.ModelIndex.ofClasses` — the index of a list of class records.
-/

namespace ModuleRecovery

/-- What a model declares, by name and by key. -/
structure ModelIndex where
  /-- The resolved class names, in order of first occurrence. -/
  classes : OrderedSet String
  /-- One pair of simple name and resolved name for each record, in order. -/
  simpleNames : List (String × String)
  /-- The label of each method key, by key in order of first occurrence. -/
  labels : OrderedMap String String

/-- The nodes of all methods, in order. -/
def methodNodes (classes : List ClassRecord) : List MethodNode :=
  classes.flatMap fun c => c.methods.map (MethodNode.ofMethod c.resolvedName)

namespace ModelIndex

/-- The index of a list of class records. -/
def ofClasses (classes : List ClassRecord) : ModelIndex where
  classes := .ofList (classes.map ClassRecord.resolvedName)
  simpleNames := classes.map fun c => (c.lookupName, c.resolvedName)
  labels := .ofList ((methodNodes classes).map fun n => (n.key, n.label))

/-- Whether the model declares a class of that name. -/
def containsClass (index : ModelIndex) (name : String) : Bool :=
  index.classes.contains name

/-- The label of the method with the given key. -/
def labelForKey? (index : ModelIndex) (key : String) : Option String :=
  index.labels.get? key

/-- One label for each method key, in the order of the keys. -/
def methodLabels (index : ModelIndex) : List String :=
  index.labels.values

/-- How many method keys the model declares. -/
def methodCount (index : ModelIndex) : Nat :=
  index.labels.size

end ModelIndex

end ModuleRecovery
