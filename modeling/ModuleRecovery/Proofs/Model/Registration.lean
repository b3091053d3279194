import Mathlib.Logic.Function.Basic
import ModuleRecovery.Proofs.Model.Index

set_option relaxedAutoImplicit false
set_option autoImplicit false

/-!
# Registering a model

The index of a model can be filled class by class and method by method. A method enters its key
into the set of keys, where a known key keeps its place, and its label into the map of labels, where
it replaces the label that the key had. The list of labels asks the map for every key of the set,
and would leave out a key that the map does not know; but the set and the map grow together, so
there is none.

## Main definitions

* `ModuleRecovery.RegistrationTable` — the index of a model, with keys and labels kept apart.
* `ModuleRecovery.RegistrationTable.registerMethod`,
  `ModuleRecovery.RegistrationTable.registerClass` — enter a method or a class.
* `ModuleRecovery.RegistrationTable.IsTableOf` — the tables are those of a model.

## Main results

* `ModuleRecovery.lastLabel?_eq_some_iff` — the label of the last method with a key.
* `ModuleRecovery.RegistrationTable.IsTableOf.registerClass`,
  `ModuleRecovery.RegistrationTable.isTableOf_ofClasses` — the tables stay those of the model.
* `ModuleRecovery.ofClasses_registration` — what the index of a model holds, also if it is kept in
  tables.
-/

namespace ModuleRecovery

variable {classes : List ClassRecord} {key label : String}

/-! ## The label of a key -/

/-- **A key has the label of the last method with that key.** -/
theorem lastLabel?_eq_some_iff :
    lastLabel? classes key = some label ↔
      ∃ before n after, methodNodes classes = before ++ n :: after ∧ n.key = key ∧
        n.label = label ∧ ∀ n' ∈ after, n'.key ≠ key := by
  have hlast : ((methodNodes classes).filter (·.key = key)).getLast? =
      (methodNodes classes).reverse.find? (·.key = key) := by
    rw [List.getLast?_eq_head?_reverse, ← List.filter_reverse, List.head?_filter]
  rw [lastLabel?, hlast, Option.map_eq_some_iff]
  simp only [List.find?_eq_some_iff_append, decide_eq_true_eq, Bool.not_eq_true',
    decide_eq_false_iff_not]
  constructor
  · rintro ⟨n, ⟨hkey, after, before, hnodes, hafter⟩, hlabel⟩
    refine ⟨before.reverse, n, after.reverse, ?_, hkey, hlabel, fun n' hn' => ?_⟩
    · rw [← List.reverse_reverse (methodNodes classes), hnodes]
      simp
    · exact hafter n' (List.mem_reverse.1 hn')
  · rintro ⟨before, n, after, hnodes, hkey, hlabel, hafter⟩
    refine ⟨n, ⟨hkey, after.reverse, before.reverse, ?_, fun n' hn' => ?_⟩, hlabel⟩
    · rw [hnodes]
      simp
    · exact hafter n' (List.mem_reverse.1 hn')

theorem methodNodes_concat (classes : List ClassRecord) (c : ClassRecord) :
    methodNodes (classes ++ [c]) =
      methodNodes classes ++ c.methods.map (MethodNode.ofMethod c.resolvedName) := by
  rw [methodNodes, methodNodes, List.flatMap_append, List.flatMap_singleton]

/-- The label of a key, when a class comes behind the others: that of its last method with the key,
else the label so far. -/
theorem lastLabel?_concat (classes : List ClassRecord) (c : ClassRecord) (key : String) :
    lastLabel? (classes ++ [c]) key =
      (((c.methods.map (MethodNode.ofMethod c.resolvedName)).filter (·.key = key)).getLast?.map
        MethodNode.label).or (lastLabel? classes key) := by
  rw [lastLabel?, lastLabel?, methodNodes_concat, List.filter_append, List.getLast?_append,
    Option.map_or]

/-! ## Keys and labels kept apart -/

/-- The index of a model, where the keys of the methods and their labels are kept apart. -/
structure RegistrationTable where
  /-- The resolved class names, in order of first occurrence. -/
  classes : OrderedSet String := ∅
  /-- One pair of simple name and resolved name for each record, in order. -/
  simpleNames : List (String × String) := []
  /-- The keys of the methods, in order of first occurrence. -/
  methodKeys : OrderedSet String := ∅
  /-- The labels of the keys. -/
  labels : String → Option String := fun _ => none

namespace RegistrationTable

/-- Enter a method of the class named `owner`. -/
def registerMethod (owner : String) (t : RegistrationTable) (m : MethodRecord) :
    RegistrationTable :=
  let n := MethodNode.ofMethod owner m
  { t with
    methodKeys := t.methodKeys.insert n.key
    labels := Function.update t.labels n.key (some n.label) }

/-- Enter a class: its names, then its methods, then the class itself. -/
def registerClass (t : RegistrationTable) (c : ClassRecord) : RegistrationTable :=
  let owner := c.resolvedName
  let named := { t with simpleNames := t.simpleNames ++ [(c.lookupName, owner)] }
  let filled := c.methods.foldl (registerMethod owner) named
  { filled with classes := filled.classes.insert owner }

/-- The tables that the classes of a model fill, one after the other. -/
def ofClasses (classes : List ClassRecord) : RegistrationTable :=
  classes.foldl registerClass {}

/-- The labels of the keys, in their order; a key without a label is left out. -/
def methodLabels (t : RegistrationTable) : List String :=
  t.methodKeys.toList.filterMap t.labels

/-- The tables are those of a model. -/
structure IsTableOf (t : RegistrationTable) (classes : List ClassRecord) : Prop where
  /-- The classes are the resolved names. -/
  classes_eq : t.classes = .ofList (classes.map ClassRecord.resolvedName)
  /-- Each record has its pair of names. -/
  simpleNames_eq : t.simpleNames = classes.map fun c => (c.lookupName, c.resolvedName)
  /-- The keys are those of the methods. -/
  methodKeys_eq : t.methodKeys = .ofList ((methodNodes classes).map MethodNode.key)
  /-- The label of a key is that of the last method with the key. -/
  labels_eq : ∀ key, t.labels key = lastLabel? classes key

variable {t : RegistrationTable}

/-- **Entering methods** inserts their keys, and a key takes the label of the last one of them that
has it. The names are left as they are. -/
theorem foldl_registerMethod (owner : String) (methods : List MethodRecord)
    (t : RegistrationTable) :
    let nodes := methods.map (MethodNode.ofMethod owner)
    let t' := methods.foldl (registerMethod owner) t
    t'.classes = t.classes ∧ t'.simpleNames = t.simpleNames ∧
      t'.methodKeys = (nodes.map MethodNode.key).foldl OrderedSet.insert t.methodKeys ∧
      ∀ key, t'.labels key =
        ((nodes.filter (·.key = key)).getLast?.map MethodNode.label).or (t.labels key) := by
  induction methods using List.reverseRecOn with
  | nil => exact ⟨rfl, rfl, rfl, fun key => rfl⟩
  | append_singleton methods m ih =>
    obtain ⟨hclasses, hnames, hkeys, hlabels⟩ := ih
    intro nodes t'
    have ht' : t' = registerMethod owner (methods.foldl (registerMethod owner) t) m :=
      List.foldl_concat _ _ _ _
    refine ⟨by rw [ht']; exact hclasses, by rw [ht']; exact hnames, ?_, fun key => ?_⟩
    · rw [ht', registerMethod, hkeys]
      simp only [nodes, List.map_append, List.map_cons, List.map_nil, List.foldl_append,
        List.foldl_cons, List.foldl_nil]
    · have hnodes : nodes = methods.map (MethodNode.ofMethod owner) ++
          [MethodNode.ofMethod owner m] := by
        rw [← List.map_singleton, ← List.map_append]
      rw [ht', registerMethod, hnodes, List.filter_append, List.getLast?_append]
      by_cases hkey : (MethodNode.ofMethod owner m).key = key
      · simp [hkey]
      · simp [hkey, Function.update_of_ne (Ne.symm hkey), hlabels]

/-- **Entering a class keeps the tables those of the model.** -/
theorem IsTableOf.registerClass (h : t.IsTableOf classes) (c : ClassRecord) :
    (t.registerClass c).IsTableOf (classes ++ [c]) := by
  obtain ⟨hclasses, hnames, hkeys, hlabels⟩ := foldl_registerMethod c.resolvedName c.methods
    { t with simpleNames := t.simpleNames ++ [(c.lookupName, c.resolvedName)] }
  refine ⟨?_, ?_, ?_, fun key => ?_⟩
  · rw [List.map_append, List.map_singleton, OrderedSet.ofList_concat, ← h.classes_eq]
    exact congrArg (OrderedSet.insert · c.resolvedName) hclasses
  · rw [List.map_append, ← h.simpleNames_eq]
    exact hnames
  · rw [methodNodes_concat, List.map_append, OrderedSet.ofList_append, ← h.methodKeys_eq]
    exact hkeys
  · rw [lastLabel?_concat, ← h.labels_eq]
    exact hlabels key

/-- **The tables that a model fills are those of the model.** -/
theorem isTableOf_ofClasses (classes : List ClassRecord) :
    (ofClasses classes).IsTableOf classes := by
  induction classes using List.reverseRecOn with
  | nil => exact ⟨rfl, rfl, rfl, fun key => rfl⟩
  | append_singleton classes c ih =>
    rw [ofClasses, List.foldl_concat]
    exact ih.registerClass c

/-- **No key is left out**: the labels are those of the keys, one for each. -/
theorem IsTableOf.methodLabels_eq (h : t.IsTableOf classes) :
    t.methodLabels = (ModelIndex.ofClasses classes).methodLabels := by
  have hlabels : t.labels = lastLabel? classes := funext h.labels_eq
  have hkeys := map_lastLabel?_keys classes
  have hmap : ∀ keys : List String, keys.filterMap (lastLabel? classes) =
      (keys.map (lastLabel? classes)).filterMap id := fun keys => by
    rw [List.filterMap_map]
    rfl
  rw [methodLabels, h.methodKeys_eq, OrderedSet.toList_ofList, hlabels, hmap, hkeys,
    List.filterMap_map]
  simp

end RegistrationTable

/-! ## The whole index -/

/-- **What the index of a model holds.** The keys are those of the methods, each once, in order of
first occurrence. A key is displayed by the label of the last method that has it, and a text is no
key exactly if no method has it as its key. The labels are listed one for each key, in the order of
the keys, and as many are counted as are listed. The classes are the resolved names, each once, in
order of first occurrence, and a name is found exactly if it is one of them. There is one pair of
simple name and resolved name for each record, in order, also where records repeat. If the keys and
their labels are kept apart and filled method by method, the tables tell the same, and the list of
labels leaves out no key.

**Proof sketch.** Entering a method inserts its key and sets the label of this key, so the set of
keys and the map of labels know the same keys after every method. -/
theorem ofClasses_registration (classes : List ClassRecord) :
    let index := ModelIndex.ofClasses classes
    let t := RegistrationTable.ofClasses classes
    index.labels.keys.toList = ((methodNodes classes).map MethodNode.key).eraseDups ∧
    (∀ key label, index.labelForKey? key = some label ↔
      ∃ before n after, methodNodes classes = before ++ n :: after ∧ n.key = key ∧
        n.label = label ∧ ∀ n' ∈ after, n'.key ≠ key) ∧
    (∀ key, index.labelForKey? key = none ↔
      ∀ c ∈ classes, ∀ m ∈ c.methods, (MethodNode.ofMethod c.resolvedName m).key ≠ key) ∧
    index.labels.keys.toList.map index.labelForKey? = index.methodLabels.map some ∧
    index.methodLabels.length = index.methodCount ∧
    index.classes.toList = (classes.map ClassRecord.resolvedName).eraseDups ∧
    (∀ name, index.containsClass name = true ↔ name ∈ index.classes.toList) ∧
    index.simpleNames = classes.map (fun c => (c.lookupName, c.resolvedName)) ∧
    (t.classes = index.classes ∧ t.simpleNames = index.simpleNames ∧
      t.methodKeys = index.labels.keys ∧ (∀ key, t.labels key = index.labelForKey? key) ∧
      t.methodLabels = index.methodLabels ∧ t.methodKeys.size = index.methodCount) := by
  intro index t
  have ht : t.IsTableOf classes := RegistrationTable.isTableOf_ofClasses classes
  have hkeys : t.methodKeys = index.labels.keys := by
    ext1
    rw [ht.methodKeys_eq, keys_labels_ofClasses, OrderedSet.toList_ofList]
  have hlabel : ∀ key, index.labelForKey? key = lastLabel? classes key :=
    labelForKey?_ofClasses classes
  refine ⟨keys_labels_ofClasses classes, fun key label => ?_, fun key => ?_, ?_, ?_, ?_,
    fun name => OrderedSet.contains_iff, rfl, ht.classes_eq, ht.simpleNames_eq, hkeys,
    fun key => (ht.labels_eq key).trans (hlabel key).symm, ht.methodLabels_eq, ?_⟩
  · rw [hlabel, lastLabel?_eq_some_iff]
  · rw [hlabel, lastLabel?_eq_none_iff]
    simp only [mem_methodNodes, forall_exists_index, and_imp]
    exact ⟨fun h c hc m hm => h _ c hc m hm rfl, fun h n c hc m hm hn => hn ▸ h c hc m hm⟩
  · exact index.labels.map_get?_keys
  · rw [ModelIndex.methodLabels, OrderedMap.values, List.length_map]
    rfl
  · exact OrderedSet.toList_ofList _
  · rw [hkeys, OrderedSet.size, OrderedMap.keys, List.length_map]
    rfl

end ModuleRecovery
