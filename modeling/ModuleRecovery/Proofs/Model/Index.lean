import ModuleRecovery.Model.Index
import ModuleRecovery.Proofs.Collections.OrderedMap

set_option relaxedAutoImplicit false
set_option autoImplicit false

/-!
# Labels of method keys

Several methods may have the same key. The index of a model knows a key at the place of the
first of them and displays it by the label of the last one, and it knows no other keys.

## Main definitions

* `ModuleRecovery.lastLabel?` — the label of the last method with a key.

## Main results

* `ModuleRecovery.lastLabel?_eq_none_iff` — which keys have a label.
* `ModuleRecovery.labelForKey?_ofClasses` — the index finds the label of the last method.
* `ModuleRecovery.map_lastLabel?_keys` — the labels that the index lists.
-/

namespace ModuleRecovery

variable {classes : List ClassRecord} {key label : String}

/-- The label of the last method, in input order, that has the given key. -/
def lastLabel? (classes : List ClassRecord) (key : String) : Option String :=
  ((methodNodes classes).filter (·.key = key)).getLast?.map MethodNode.label

/-- A node of a method is made from a method of some class. -/
theorem mem_methodNodes {n : MethodNode} :
    n ∈ methodNodes classes ↔
      ∃ c ∈ classes, ∃ m ∈ c.methods, MethodNode.ofMethod c.resolvedName m = n := by
  simp only [methodNodes, List.mem_flatMap, List.mem_map]

theorem ofMethod_mem_methodNodes {c : ClassRecord} {m : MethodRecord} (hc : c ∈ classes)
    (hm : m ∈ c.methods) : MethodNode.ofMethod c.resolvedName m ∈ methodNodes classes :=
  mem_methodNodes.2 ⟨c, hc, m, hm, rfl⟩

/-- A key has no label exactly if no method has the key. -/
theorem lastLabel?_eq_none_iff :
    lastLabel? classes key = none ↔ ∀ n ∈ methodNodes classes, n.key ≠ key := by
  rw [lastLabel?, Option.map_eq_none_iff, List.getLast?_eq_none_iff, List.filter_eq_nil_iff]
  simp only [decide_eq_true_eq, ne_eq]

/-- The label of a key is the label of a method with that key. -/
theorem exists_of_lastLabel?_eq_some (h : lastLabel? classes key = some label) :
    ∃ n ∈ methodNodes classes, n.key = key ∧ n.label = label := by
  obtain ⟨n, hn, rfl⟩ := Option.map_eq_some_iff.1 h
  obtain ⟨hmem, hkey⟩ := List.mem_filter.1 (List.mem_of_getLast? hn)
  exact ⟨n, hmem, of_decide_eq_true hkey, rfl⟩

/-- The key of a method has a label, though it need not be the label of that method. -/
theorem exists_lastLabel? {n : MethodNode} (hn : n ∈ methodNodes classes) :
    ∃ label, lastLabel? classes n.key = some label := by
  rw [← Option.isSome_iff_exists, Option.isSome_iff_ne_none]
  exact fun hnone => lastLabel?_eq_none_iff.1 hnone n hn rfl

/-- **The index finds the label of the last method with a key.** -/
theorem labelForKey?_ofClasses (classes : List ClassRecord) (key : String) :
    (ModelIndex.ofClasses classes).labelForKey? key = lastLabel? classes key := by
  rw [ModelIndex.labelForKey?, ModelIndex.ofClasses, OrderedMap.get?_ofList, List.filter_map,
    List.getLast?_map, Option.map_map, lastLabel?]
  rfl

/-- The index knows the keys of the methods, in order of first occurrence. -/
theorem keys_labels_ofClasses (classes : List ClassRecord) :
    (ModelIndex.ofClasses classes).labels.keys.toList =
      ((methodNodes classes).map MethodNode.key).eraseDups := by
  rw [ModelIndex.ofClasses, OrderedMap.keys_ofList, OrderedSet.toList_ofList, List.map_map]
  rfl

/-- **The index lists one label for every key**, in the order in which the keys occur first. -/
theorem map_lastLabel?_keys (classes : List ClassRecord) :
    ((methodNodes classes).map MethodNode.key).eraseDups.map (lastLabel? classes) =
      (ModelIndex.ofClasses classes).methodLabels.map some := by
  rw [ModelIndex.methodLabels, ← OrderedMap.map_get?_keys, keys_labels_ofClasses]
  exact List.map_congr_left fun key _ => (labelForKey?_ofClasses classes key).symm

/-- The index lists the labels of all keys and no others. -/
theorem mem_methodLabels_iff :
    label ∈ (ModelIndex.ofClasses classes).methodLabels ↔
      ∃ key, lastLabel? classes key = some label := by
  simp only [ModelIndex.methodLabels, OrderedMap.mem_values_iff, ← labelForKey?_ofClasses]
  rfl

end ModuleRecovery
