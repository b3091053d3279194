import ModuleRecovery.Proofs.CallGraph.Methods

set_option relaxedAutoImplicit false
set_option autoImplicit false

/-!
# What the method graph stands for

The call graph of methods is a relation between labels that can be said without building
anything: every call joins the label of its method to the place where the call lands. The
nodes are the labels of all methods, in the order of their keys, and then the places outside
the model, in the order of the calls.

## Main definitions

* `ModuleRecovery.CallTarget` — where a call lands.
* `ModuleRecovery.MethodCall` — two labels are joined by some call of a model.
* `ModuleRecovery.externalTargets` — the places outside the model, in the order of the calls.

## Main results

* `ModuleRecovery.mem_edges_methodGraph` — the edges are the calls.
* `ModuleRecovery.toList_nodes_methodGraph` — the nodes.
* `ModuleRecovery.methodGraph_denotation` — the graph as a whole.
-/

namespace ModuleRecovery

variable {classes : List ClassRecord} {includeExternal : Bool} {label source target : String}

/-- Where a call lands: on the label of its callee, if a method has the callee's key, and else
on a node outside the model, where such nodes are wanted. -/
inductive CallTarget (classes : List ClassRecord) (includeExternal : Bool) (d : CallRecord) :
    String → Prop where
  | project {key label : String} (hkey : d.calleeKey? = some key)
      (hlabel : lastLabel? classes key = some label) : CallTarget classes includeExternal d label
  | external {key : String} (hkey : d.calleeKey? = some key)
      (hnone : ∀ n ∈ methodNodes classes, n.key ≠ key) (hshown : includeExternal = true) :
      CallTarget classes includeExternal d (externalNode d.externalSignature)

/-- Some call of a model leads from one label to the other. -/
def MethodCall (classes : List ClassRecord) (includeExternal : Bool) (source target : String) :
    Prop :=
  ∃ c ∈ classes, ∃ m ∈ c.methods, ∃ d ∈ m.calls,
    lastLabel? classes (MethodNode.ofMethod c.resolvedName m).key = some source ∧
      CallTarget classes includeExternal d target

/-- The node outside the model on which a call lands: such nodes have to be wanted, and the call
needs a callee key that no method has. -/
def externalTarget? (classes : List ClassRecord) (includeExternal : Bool) (d : CallRecord) :
    Option String :=
  if includeExternal && d.calleeKey?.any fun key => (methodNodes classes).all (·.key ≠ key) then
    some (externalNode d.externalSignature)
  else none

/-- The nodes outside the model on which calls land, in the order of the calls. -/
def externalTargets (classes : List ClassRecord) (includeExternal : Bool) : List String :=
  ((classes.flatMap (·.methods)).flatMap (·.calls)).filterMap
    (externalTarget? classes includeExternal)

/-- The class without the calls that have no callee key. -/
def ClassRecord.withoutInertCalls (c : ClassRecord) : ClassRecord :=
  { c with methods := c.methods.map fun m =>
      { m with calls := m.calls.filter (·.calleeKey?.isSome) } }

/-! ## Edges -/

/-- A call is followed to where it lands. -/
theorem methodTarget?_eq_some_iff {d : CallRecord} :
    methodTarget? (.ofClasses classes) includeExternal d = some target ↔
      CallTarget classes includeExternal d target := by
  simp only [methodTarget?, Option.bind_eq_bind, Option.bind_eq_some_iff, labelForKey?_ofClasses]
  constructor
  · rintro ⟨key, hkey, h⟩
    cases hlabel : lastLabel? classes key with
    | some label =>
      rw [hlabel] at h
      obtain rfl := Option.some.inj h
      exact .project hkey hlabel
    | none =>
      rw [hlabel] at h
      cases includeExternal with
      | false => cases h
      | true =>
        obtain rfl := Option.some.inj h
        exact .external hkey (lastLabel?_eq_none_iff.1 hlabel) rfl
  · rintro (⟨hkey, hlabel⟩ | ⟨hkey, hnone, hshown⟩)
    · exact ⟨_, hkey, by rw [hlabel]⟩
    · refine ⟨_, hkey, ?_⟩
      rw [lastLabel?_eq_none_iff.2 hnone, hshown]
      rfl

theorem mem_methodEdges {owner : String} {m : MethodRecord} :
    (source, target) ∈ methodEdges (.ofClasses classes) includeExternal owner m ↔
      lastLabel? classes (MethodNode.ofMethod owner m).key = some source ∧
        ∃ d ∈ m.calls, CallTarget classes includeExternal d target := by
  rw [methodEdges, labelForKey?_ofClasses]
  cases lastLabel? classes (MethodNode.ofMethod owner m).key with
  | none => simp
  | some label =>
    simp only [List.mem_map, Prod.mk.injEq, List.mem_filterMap, methodTarget?_eq_some_iff,
      Option.some.injEq]
    constructor
    · rintro ⟨_, hd, rfl, rfl⟩
      exact ⟨rfl, hd⟩
    · rintro ⟨rfl, hd⟩
      exact ⟨target, hd, rfl, rfl⟩

/-- The calls of a model, as edges between labels, are its calls. -/
theorem mem_methodCalls_iff :
    (source, target) ∈ methodCalls classes includeExternal ↔
      MethodCall classes includeExternal source target := by
  rw [MethodCall]
  simp only [methodCalls, List.mem_flatMap, mem_methodEdges]
  refine exists_congr fun c => and_congr_right fun _ => exists_congr fun m =>
    and_congr_right fun _ => ?_
  simp only [← exists_and_left, and_left_comm]

/-- **The edges of the graph are the calls of the model.** -/
theorem mem_edges_methodGraph :
    (source, target) ∈ (methodGraph classes includeExternal).edges ↔
      MethodCall classes includeExternal source target := by
  show _ ∈ ((Digraph.addNodes ∅ _).addEdges (methodCalls classes includeExternal)).edges ↔ _
  rw [Digraph.mem_edges_addEdges_addNodes, mem_methodCalls_iff]

/-! ## Nodes -/

/-- The nodes are the labels of the keys and the places where calls land. -/
theorem mem_nodes_methodGraph :
    label ∈ (methodGraph classes includeExternal).nodes ↔
      (∃ key, lastLabel? classes key = some label) ∨
        ∃ source, MethodCall classes includeExternal source label := by
  rw [nodes_methodGraph, OrderedSet.mem_foldl_insert, OrderedSet.mem_ofList, mem_methodLabels_iff]
  simp only [List.mem_map, Prod.exists, exists_eq_right, mem_methodCalls_iff]

/-- Every method has a label, so no call is lost for want of a source. -/
theorem map_snd_methodCalls (classes : List ClassRecord) (includeExternal : Bool) :
    (methodCalls classes includeExternal).map Prod.snd =
      ((classes.flatMap (·.methods)).flatMap (·.calls)).filterMap
        (methodTarget? (.ofClasses classes) includeExternal) := by
  rw [methodCalls, List.map_flatMap, List.flatMap_assoc, List.filterMap_flatMap]
  refine List.flatMap_congr fun c hc => ?_
  rw [List.map_flatMap, List.filterMap_flatMap]
  refine List.flatMap_congr fun m hm => ?_
  obtain ⟨label, hlabel⟩ := exists_lastLabel? (ofMethod_mem_methodNodes hc hm)
  rw [methodEdges, labelForKey?_ofClasses, hlabel]
  simp only [List.map_map, Function.comp_def, List.map_id']

/-- Where a call lands, and the node outside the model on which it lands, are the same but for
the labels of methods. -/
theorem filter_externalTarget? {outside : String → Bool}
    (houtside : ∀ label ∈ (ModelIndex.ofClasses classes).methodLabels, outside label = false)
    (d : CallRecord) :
    (methodTarget? (.ofClasses classes) includeExternal d).filter outside =
      (externalTarget? classes includeExternal d).filter outside := by
  have hall : ∀ key, (methodNodes classes).all (·.key ≠ key) = (lastLabel? classes key).isNone := by
    intro key
    rw [Bool.eq_iff_iff, Option.isNone_iff_eq_none, lastLabel?_eq_none_iff]
    simp
  cases hkey : d.calleeKey? with
  | none => simp [methodTarget?, externalTarget?, hkey]
  | some key =>
    simp only [methodTarget?, externalTarget?, hkey, labelForKey?_ofClasses, hall,
      Option.bind_eq_bind, Option.bind_some, Option.any_some]
    cases hlabel : lastLabel? classes key with
    | some label =>
      have hout := houtside label (mem_methodLabels_iff.2 ⟨key, hlabel⟩)
      simp [hout]
    | none => simp

/-- **The nodes are the labels of all methods, and then the nodes outside the model.**

**Proof sketch.** The calls add the places where they land to the labels of the methods. All of
these but the nodes outside the model are such labels themselves. -/
theorem toList_nodes_methodGraph (classes : List ClassRecord) (includeExternal : Bool) :
    (methodGraph classes includeExternal).nodes.toList =
      ((ModelIndex.ofClasses classes).methodLabels ++
        externalTargets classes includeExternal).eraseDups := by
  rw [nodes_methodGraph]
  refine OrderedSet.toList_foldl_insert_ofList ?_
  rw [map_snd_methodCalls, externalTargets, List.filter_filterMap, List.filter_filterMap]
  refine List.filterMap_congr fun d _ => filter_externalTarget? (fun label hlabel => ?_) d
  simpa using hlabel

/-! ## The graph -/

/-- **Calls without a callee key contribute nothing.** -/
theorem methodGraph_map_withoutInertCalls (classes : List ClassRecord) (includeExternal : Bool) :
    methodGraph (classes.map ClassRecord.withoutInertCalls) includeExternal =
      methodGraph classes includeExternal := by
  have hnodes : methodNodes (classes.map ClassRecord.withoutInertCalls) = methodNodes classes := by
    simp only [methodNodes, List.flatMap_map, ClassRecord.withoutInertCalls, List.map_map]
    rfl
  have hindex : ModelIndex.ofClasses (classes.map ClassRecord.withoutInertCalls) =
      .ofClasses classes := by
    simp only [ModelIndex.ofClasses, hnodes, List.map_map]
    rfl
  have htargets : ∀ ds : List CallRecord,
      (ds.filter (·.calleeKey?.isSome)).filterMap
          (methodTarget? (.ofClasses classes) includeExternal) =
        ds.filterMap (methodTarget? (.ofClasses classes) includeExternal) := by
    intro ds
    rw [List.filterMap_filter]
    refine List.filterMap_congr fun d _ => ?_
    cases hkey : d.calleeKey? <;> simp [methodTarget?, hkey]
  have hcalls : methodCalls (classes.map ClassRecord.withoutInertCalls) includeExternal =
      methodCalls classes includeExternal := by
    simp only [methodCalls, hindex, List.flatMap_map, ClassRecord.withoutInertCalls, methodEdges,
      htargets]
    rfl
  show (Digraph.addNodes ∅ (ModelIndex.ofClasses _).methodLabels).addEdges (methodCalls _ _) =
    (Digraph.addNodes ∅ (ModelIndex.ofClasses classes).methodLabels).addEdges (methodCalls _ _)
  rw [hindex, hcalls]

/-- **What the call graph of methods stands for.** Its nodes are the labels of the method keys,
in order of first occurrence, and then the nodes outside the model on which calls land, in the
order of the calls; every label is listed once. Its edges are the calls, each listed once. A call
of a method to itself is kept, and a call without a callee key contributes nothing.

**Proof sketch.** The index knows the label of every key, so every call has a source, and is
followed to where it lands. Calls add to the labels nothing but the nodes outside the model. -/
theorem methodGraph_denotation (classes : List ClassRecord) (includeExternal : Bool) :
    let g := methodGraph classes includeExternal
    (∃ labels,
      ((methodNodes classes).map MethodNode.key).eraseDups.map (lastLabel? classes) =
        labels.map some ∧
      g.nodes.toList = (labels ++ externalTargets classes includeExternal).eraseDups) ∧
    (∀ source target, (source, target) ∈ g.edges ↔
      MethodCall classes includeExternal source target) ∧
    g.edges.Nodup ∧
    (∀ c ∈ classes, ∀ m ∈ c.methods, ∀ d ∈ m.calls,
      d.calleeKey? = some (MethodNode.ofMethod c.resolvedName m).key →
        ∃ label, lastLabel? classes (MethodNode.ofMethod c.resolvedName m).key = some label ∧
          (label, label) ∈ g.edges) ∧
    methodGraph (classes.map ClassRecord.withoutInertCalls) includeExternal = g := by
  intro g
  refine ⟨⟨_, map_lastLabel?_keys classes, toList_nodes_methodGraph classes includeExternal⟩,
    fun source target => mem_edges_methodGraph, g.nodup_edges, fun c hc m hm d hd hkey => ?_,
    methodGraph_map_withoutInertCalls classes includeExternal⟩
  obtain ⟨label, hlabel⟩ := exists_lastLabel? (ofMethod_mem_methodNodes hc hm)
  exact ⟨label, hlabel, mem_edges_methodGraph.2 ⟨c, hc, m, hm, d, hd, hlabel, .project hkey hlabel⟩⟩

end ModuleRecovery
