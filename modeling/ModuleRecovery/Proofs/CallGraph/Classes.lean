import ModuleRecovery.CallGraph.Classes
import ModuleRecovery.Proofs.Collections.OrderedSet
import ModuleRecovery.Proofs.Graph.Directed

set_option relaxedAutoImplicit false
set_option autoImplicit false

/-!
# What the class graph stands for

The call graph of classes joins a class to the place where one of its calls lands, unless the
call lands on the class itself. The nodes are the classes, in the order of the model, and then
the places outside the model, in the order of the calls.

## Main definitions

* `ModuleRecovery.ClassTarget` — where a call lands.
* `ModuleRecovery.ClassCall` — two nodes are joined by some call of a model.
* `ModuleRecovery.externalClassTargets` — the places outside the model, in the order of the calls.

## Main results

* `ModuleRecovery.mem_edges_classGraph` — the edges are the calls.
* `ModuleRecovery.mem_nodes_classGraph` — the nodes are the classes and where their calls land.
* `ModuleRecovery.toList_nodes_classGraph` — the nodes in their order.
* `ModuleRecovery.classGraph_denotation` — the graph as a whole.
-/

namespace ModuleRecovery

variable {classes : List ClassRecord} {includeExternal : Bool} {name source target : String}

/-- Where a call lands: on its target type, if that is a class of the model, and else on a node
outside the model, where such nodes are wanted. -/
inductive ClassTarget (classes : List ClassRecord) (includeExternal : Bool) (d : CallRecord) :
    String → Prop where
  | project {type : String} (htype : d.targetType? = some type)
      (hclass : ∃ c ∈ classes, c.resolvedName = type) : ClassTarget classes includeExternal d type
  | external {type : String} (htype : d.targetType? = some type)
      (hnone : ¬ ∃ c ∈ classes, c.resolvedName = type) (hshown : includeExternal = true) :
      ClassTarget classes includeExternal d (externalNode type)

/-- Some call of a model leads from a class to another node. -/
def ClassCall (classes : List ClassRecord) (includeExternal : Bool) (source target : String) :
    Prop :=
  target ≠ source ∧ ∃ c ∈ classes, c.resolvedName = source ∧ ∃ m ∈ c.methods, ∃ d ∈ m.calls,
    ClassTarget classes includeExternal d target

/-- The node outside the model on which a call lands: such nodes have to be wanted, and no class
may have the name of the target type. -/
def externalClassTarget? (classes : List ClassRecord) (includeExternal : Bool) (d : CallRecord) :
    Option String :=
  if includeExternal then
    (d.targetType?.filter fun type => classes.all (·.resolvedName ≠ type)).map externalNode
  else none

/-- The nodes outside the model on which calls land, in the order of the calls. -/
def externalClassTargets (classes : List ClassRecord) (includeExternal : Bool) : List String :=
  ((classes.flatMap (·.methods)).flatMap (·.calls)).filterMap
    (externalClassTarget? classes includeExternal)

/-! ## Calls -/

/-- The target type of a call is its declaring type, and the receiver's type only if there is no
declaring type; an empty text is no type. -/
theorem targetType?_eq_some_iff {d : CallRecord} {type : String} :
    d.targetType? = some type ↔ type ≠ "" ∧
      (d.declaringType = some type ∨
        (d.declaringType = none ∨ d.declaringType = some "") ∧ d.receiverType = some type) := by
  have hpresent : ∀ {text : Option String} {t : String},
      present? text = some t ↔ text = some t ∧ t ≠ "" := by
    intro text t
    rw [present?, Option.filter_eq_some_iff, decide_eq_true_eq]
  have hnone : ∀ {text : Option String}, present? text = none ↔ text = none ∨ text = some "" := by
    intro text
    cases text <;> simp [present?, Option.filter_some]
  rw [CallRecord.targetType?, Option.or_eq_some_iff, CallRecord.declaringType?, hpresent, hpresent,
    hnone]
  tauto

/-- The index knows the names of the classes. -/
theorem containsClass_ofClasses :
    (ModelIndex.ofClasses classes).containsClass name = true ↔
      ∃ c ∈ classes, c.resolvedName = name := by
  rw [ModelIndex.containsClass, OrderedSet.contains_iff, ModelIndex.ofClasses,
    OrderedSet.mem_ofList, List.mem_map]

/-- A call is followed to where it lands. -/
theorem classTarget?_eq_some_iff {d : CallRecord} :
    classTarget? (.ofClasses classes) includeExternal d = some target ↔
      ClassTarget classes includeExternal d target := by
  simp only [classTarget?, Option.bind_eq_bind, Option.bind_eq_some_iff, containsClass_ofClasses]
  constructor
  · rintro ⟨type, htype, h⟩
    split at h
    next hclass =>
      obtain rfl := Option.some.inj h
      exact .project htype hclass
    next hnone =>
      split at h
      next hshown =>
        obtain rfl := Option.some.inj h
        exact .external htype hnone hshown
      next => cases h
  · rintro (⟨htype, hclass⟩ | ⟨htype, hnone, hshown⟩)
    · exact ⟨target, htype, if_pos hclass⟩
    · exact ⟨_, htype, by rw [if_neg hnone, if_pos hshown]⟩

/-- The calls of a model, as edges between classes, are its calls. -/
theorem mem_flatMap_classEdges :
    (source, target) ∈ classes.flatMap (classEdges (.ofClasses classes) includeExternal) ↔
      ClassCall classes includeExternal source target := by
  simp only [classEdges, List.mem_flatMap, List.mem_map, List.mem_filter, List.mem_filterMap,
    classTarget?_eq_some_iff, decide_eq_true_eq, Prod.mk.injEq]
  constructor
  · rintro ⟨c, hc, t, ⟨⟨d, ⟨m, hm, hd⟩, htarget⟩, hne⟩, rfl, rfl⟩
    exact ⟨hne, c, hc, rfl, m, hm, d, hd, htarget⟩
  · rintro ⟨hne, c, hc, rfl, m, hm, d, hd, htarget⟩
    exact ⟨c, hc, target, ⟨⟨d, ⟨m, hm, hd⟩, htarget⟩, hne⟩, rfl, rfl⟩

/-- **The edges of the graph are the calls from a class to another node.** -/
theorem mem_edges_classGraph :
    (source, target) ∈ (classGraph classes includeExternal).edges ↔
      ClassCall classes includeExternal source target := by
  show _ ∈ ((Digraph.addNodes ∅ _).addEdges (classes.flatMap (classEdges _ _))).edges ↔ _
  rw [Digraph.mem_edges_addEdges_addNodes, mem_flatMap_classEdges]

/-! ## Nodes -/

/-- The nodes are the classes, and then the places where calls land. -/
theorem nodes_classGraph (classes : List ClassRecord) (includeExternal : Bool) :
    (classGraph classes includeExternal).nodes =
      ((classes.flatMap (classEdges (.ofClasses classes) includeExternal)).map Prod.snd).foldl
        OrderedSet.insert (.ofList (classes.map ClassRecord.resolvedName)) := by
  have hsources : ∀ e ∈ classes.flatMap (classEdges (.ofClasses classes) includeExternal),
      e.1 ∈ (ModelIndex.ofClasses classes).classes.toList := by
    rintro ⟨source, target⟩ he
    obtain ⟨-, c, hc, hsource, -⟩ := mem_flatMap_classEdges.1 he
    exact OrderedSet.contains_iff.1 (containsClass_ofClasses.2 ⟨c, hc, hsource⟩)
  show ((Digraph.addNodes ∅ _).addEdges (classes.flatMap (classEdges _ _))).nodes = _
  rw [Digraph.nodes_addEdges_addNodes hsources, OrderedSet.ofList_toList]
  rfl

/-- **The nodes of the graph are the classes and the places where their calls land.** -/
theorem mem_nodes_classGraph :
    name ∈ (classGraph classes includeExternal).nodes ↔
      (∃ c ∈ classes, c.resolvedName = name) ∨
        ∃ source, ClassCall classes includeExternal source name := by
  rw [nodes_classGraph, OrderedSet.mem_foldl_insert, OrderedSet.mem_ofList, List.mem_map]
  simp only [List.mem_map, Prod.exists, exists_eq_right, mem_flatMap_classEdges]

/-- Where a call lands, and the node outside the model on which it lands, are the same but for
the names of classes. -/
theorem filter_externalClassTarget? {outside : String → Bool}
    (houtside : ∀ c ∈ classes, outside c.resolvedName = false) (d : CallRecord) :
    (classTarget? (.ofClasses classes) includeExternal d).filter outside =
      (externalClassTarget? classes includeExternal d).filter outside := by
  have hall : ∀ type, classes.all (·.resolvedName ≠ type) =
      !(ModelIndex.ofClasses classes).containsClass type := by
    intro type
    rw [Bool.eq_iff_iff, Bool.not_eq_true', ← Bool.not_eq_true, containsClass_ofClasses]
    simp
  cases htype : d.targetType? with
  | none => simp [classTarget?, externalClassTarget?, htype]
  | some type =>
    simp only [classTarget?, externalClassTarget?, htype, hall, Option.bind_eq_bind,
      Option.bind_some, Option.filter_some]
    by_cases hclass : (ModelIndex.ofClasses classes).containsClass type = true
    · obtain ⟨c, hc, rfl⟩ := containsClass_ofClasses.1 hclass
      simp [hclass, houtside c hc]
    · simp [hclass]

/-- Without the classes themselves, the places where the calls of the classes land are the nodes
outside the model: the call of a class to itself would land on a class. -/
theorem filter_map_snd_classEdges {outside : String → Bool}
    (houtside : ∀ c ∈ classes, outside c.resolvedName = false) :
    ((classes.flatMap (classEdges (.ofClasses classes) includeExternal)).map Prod.snd).filter
        outside =
      (externalClassTargets classes includeExternal).filter outside := by
  rw [externalClassTargets, List.map_flatMap, List.filter_flatMap, List.flatMap_assoc,
    List.filterMap_flatMap, List.filter_flatMap]
  refine List.flatMap_congr fun c hc => ?_
  have hself : ∀ targets : List String,
      (targets.filter (· ≠ c.resolvedName)).filter outside = targets.filter outside := by
    intro targets
    rw [List.filter_filter]
    refine List.filter_congr fun target _ => ?_
    by_cases h : target = c.resolvedName
    · rw [h, houtside c hc, Bool.false_and]
    · rw [decide_eq_true h, Bool.and_true]
  rw [classEdges, List.map_map, Function.comp_def, List.map_id', hself, List.filter_filterMap,
    List.filter_filterMap]
  exact List.filterMap_congr fun d _ => filter_externalClassTarget? houtside d

/-- **The nodes are the classes, in the order of the model, and then the nodes outside the model
that are no classes, in the order of the calls.** -/
theorem toList_nodes_classGraph (classes : List ClassRecord) (includeExternal : Bool) :
    let names := classes.map ClassRecord.resolvedName
    (classGraph classes includeExternal).nodes.toList =
      names.eraseDups ++
        ((externalClassTargets classes includeExternal).removeAll names).eraseDups := by
  intro names
  rw [nodes_classGraph, ← List.eraseDups_append]
  refine OrderedSet.toList_foldl_insert_ofList (filter_map_snd_classEdges fun c hc => ?_)
  simpa using ⟨c, hc, rfl⟩

/-! ## The graph -/

/-- **What the call graph of classes stands for.** Its nodes are first the resolved names of the
classes, in order of first occurrence, and then the nodes outside the model on which calls land
and that are not named like a class. There is an edge from one node to another exactly if some
record of the first calls the second: the target type of a call is its declaring type, and the
receiver's type only for want of a declaring type, and the call lands on that type if it is a
class, and else on the node outside the model that stands for it, where such nodes are wanted. No
node has an edge to itself, and no edge is listed twice.

**Proof sketch.** The names of the classes are collected before any call is followed, so the
source of a call is a node already, and a call adds a node only where it leaves the model. A call
is dropped if it would lead back to its own node, whether this is a class or a node outside. -/
theorem classGraph_denotation (classes : List ClassRecord) (includeExternal : Bool) :
    let g := classGraph classes includeExternal
    let names := classes.map ClassRecord.resolvedName
    g.nodes.toList = names.eraseDups ++
      ((externalClassTargets classes includeExternal).removeAll names).eraseDups ∧
    (∀ source target, (source, target) ∈ g.edges ↔
      ClassCall classes includeExternal source target) ∧
    (∀ (d : CallRecord) (type : String), d.targetType? = some type ↔ type ≠ "" ∧
      (d.declaringType = some type ∨
        (d.declaringType = none ∨ d.declaringType = some "") ∧ d.receiverType = some type)) ∧
    (∀ node, (node, node) ∉ g.edges) ∧
    g.edges.Nodup := by
  intro g names
  refine ⟨toList_nodes_classGraph classes includeExternal, fun source target =>
    mem_edges_classGraph, fun d type => targetType?_eq_some_iff, fun node hself => ?_,
    g.nodup_edges⟩
  obtain ⟨hne, -⟩ := mem_edges_classGraph.1 hself
  exact hne rfl

end ModuleRecovery
