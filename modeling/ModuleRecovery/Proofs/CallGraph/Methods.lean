import ModuleRecovery.CallGraph.Methods
import ModuleRecovery.Coupling.Scan
import ModuleRecovery.Proofs.Collections.OrderedSet
import ModuleRecovery.Proofs.Graph.Directed
import ModuleRecovery.Proofs.Model.Index
import ModuleRecovery.Proofs.Owner.External

set_option relaxedAutoImplicit false
set_option autoImplicit false

/-!
# The part of the method graph inside the model

With or without nodes outside the model, the call graph of methods has the same part inside
the model: the same nodes in the same order, and the same successors of each of them. Only
this part has owners, so the owners of the edges are the same, too.

## Main results

* `ModuleRecovery.isExternal_methodLabel` — no method is displayed like a node outside the
  model.
* `ModuleRecovery.filter_nodes_methodGraph`, `ModuleRecovery.filter_row_methodGraph` — the part
  inside the model.
* `ModuleRecovery.edgeOwners_methodGraph` — the owners of the edges.
-/

universe u

namespace ModuleRecovery

/-! ## Edges inside a part of a graph -/

/-- Values read off the edges inside a part of a graph, if nothing is read off the others. -/
theorem Digraph.filterMap_edges {α β : Type u} [DecidableEq α] {p : α → Bool}
    {f : α × α → Option β} (hf : ∀ a b, p a = false ∨ p b = false → f (a, b) = none)
    (g : Digraph α) :
    g.edges.filterMap f = (g.nodes.toList.filter p).flatMap fun a =>
      ((g.row a).toList.filter p).filterMap fun b => f (a, b) := by
  have hrow : ∀ a, ((g.row a).toList.map (a, ·)).filterMap f =
      ((g.row a).toList.filter p).filterMap fun b => f (a, b) := by
    intro a
    rw [List.filterMap_map, List.filterMap_filter]
    refine List.filterMap_congr fun b _ => ?_
    by_cases hb : p b = true
    · rw [if_pos hb]
      rfl
    · rw [if_neg hb]
      exact hf a b (.inr (by simpa using hb))
  rw [edges_eq_flatMap, List.filterMap_flatMap, List.flatMap_congr fun a _ => hrow a]
  generalize g.nodes.toList = l
  induction l with
  | nil => rfl
  | cons a l ih =>
    rw [List.flatMap_cons, ih]
    by_cases ha : p a = true
    · rw [List.filter_cons_of_pos ha, List.flatMap_cons]
    · have hnone : ((g.row a).toList.filter p).filterMap (fun b => f (a, b)) = [] :=
        List.filterMap_eq_nil_iff.2 fun b _ => hf a b (.inl (by simpa using ha))
      rw [List.filter_cons_of_neg ha, hnone, List.nil_append]

/-! ## Labels -/

variable {classes : List ClassRecord} {label : String} {e : String × String}

/-- A class whose name does not start with the word is not named like a node outside the model. -/
theorem NoExternalNames.isExternal_resolvedName (hclasses : NoExternalNames classes) :
    ∀ c ∈ classes, isExternal c.resolvedName = false := by
  intro c hc
  have hword := (hclasses c hc).1
  rw [← Bool.not_eq_true, startsWith_iff] at hword
  rw [← Bool.not_eq_true, isExternal, startsWith_iff]
  exact fun hmark => hword (List.IsPrefix.trans ⟨[' '], rfl⟩ hmark)

/-- A method is displayed like a node outside the model only if its class is named like one: the
mark has no dot in it, so it ends before the one after the name of the class. -/
theorem isExternal_ofMethod {owner : String} (h : isExternal owner = false) (m : MethodRecord) :
    isExternal (MethodNode.ofMethod owner m).label = false := by
  rw [← Bool.not_eq_true] at h ⊢
  intro hext
  refine h (startsWith_iff.2 ?_)
  have hmark : externalMark.toList <+: owner.toList ++ ".".toList ++ m.simpleSignature.toList := by
    rw [← String.toList_append, ← String.toList_append]
    exact startsWith_iff.1 hext
  rw [List.append_assoc] at hmark
  refine prefix_of_prefix_append hmark fun c hc => ?_
  obtain rfl : '.' = c := Option.some.inj hc
  decide

/-- The label of a key is one of the labels of the model. -/
theorem mem_methodLabels {index : ModelIndex} {key : String}
    (h : index.labelForKey? key = some label) : label ∈ index.methodLabels :=
  index.labels.mem_values_iff.2 ⟨key, h⟩

/-- **No method is displayed like a node outside the model**, unless a class is named like one. -/
theorem isExternal_methodNode (hclasses : ∀ c ∈ classes, isExternal c.resolvedName = false)
    {n : MethodNode} (hn : n ∈ methodNodes classes) : isExternal n.label = false := by
  obtain ⟨c, hc, m, -, rfl⟩ := mem_methodNodes.1 hn
  exact isExternal_ofMethod (hclasses c hc) m

theorem isExternal_methodLabel (hclasses : ∀ c ∈ classes, isExternal c.resolvedName = false)
    (h : label ∈ (ModelIndex.ofClasses classes).methodLabels) : isExternal label = false := by
  obtain ⟨key, hkey⟩ := mem_methodLabels_iff.1 h
  obtain ⟨n, hn, -, rfl⟩ := exists_of_lastLabel?_eq_some hkey
  exact isExternal_methodNode hclasses hn

/-! ## Calls -/

/-- The calls of a model, as edges between labels. -/
def methodCalls (classes : List ClassRecord) (includeExternal : Bool) : List (String × String) :=
  classes.flatMap fun c =>
    c.methods.flatMap (methodEdges (.ofClasses classes) includeExternal c.resolvedName)

/-- A call lands on a method of the model, or on a node outside it. -/
theorem methodTarget?_eq_some {index : ModelIndex} {includeExternal : Bool} {d : CallRecord}
    (h : methodTarget? index includeExternal d = some label) :
    label ∈ index.methodLabels ∨ isExternal label = true := by
  simp only [methodTarget?, Option.bind_eq_bind, Option.bind_eq_some_iff] at h
  obtain ⟨key, -, h⟩ := h
  cases hkey : index.labelForKey? key with
  | some l =>
    rw [hkey] at h
    obtain rfl := Option.some.inj h
    exact .inl (mem_methodLabels hkey)
  | none =>
    rw [hkey] at h
    cases includeExternal with
    | false => cases h
    | true =>
      obtain rfl := Option.some.inj h
      exact .inr (isExternal_externalNode _)

/-- Without the nodes outside the model, a call lands where it did before, if that is inside. -/
theorem filter_methodTarget? (hclasses : ∀ c ∈ classes, isExternal c.resolvedName = false)
    (includeExternal : Bool) (d : CallRecord) :
    (methodTarget? (.ofClasses classes) includeExternal d).filter (!isExternal ·) =
      methodTarget? (.ofClasses classes) false d := by
  unfold methodTarget?
  cases hd : d.calleeKey? with
  | none => rfl
  | some key =>
    simp only [Option.bind_eq_bind, Option.bind_some]
    cases hkey : (ModelIndex.ofClasses classes).labelForKey? key with
    | some l =>
      have hl := isExternal_methodLabel hclasses (mem_methodLabels hkey)
      simp [hl]
    | none =>
      cases includeExternal with
      | false => rfl
      | true => simp [isExternal_externalNode]

theorem filter_methodCalls (hclasses : ∀ c ∈ classes, isExternal c.resolvedName = false)
    (includeExternal : Bool) :
    (methodCalls classes includeExternal).filter (fun e => !isExternal e.2) =
      methodCalls classes false := by
  have hedges : ∀ owner m, (methodEdges (.ofClasses classes) includeExternal owner m).filter
      (fun e => !isExternal e.2) = methodEdges (.ofClasses classes) false owner m := by
    intro owner m
    unfold methodEdges
    split
    · rfl
    · rw [List.filter_map]
      refine congrArg _ ?_
      simp only [Function.comp_def, List.filter_filterMap, filter_methodTarget? hclasses]
  simp only [methodCalls, List.filter_flatMap, hedges]

/-- A call starts at a method, and ends at a method or outside the model. -/
theorem mem_methodCalls {includeExternal : Bool} (he : e ∈ methodCalls classes includeExternal) :
    e.1 ∈ (ModelIndex.ofClasses classes).methodLabels ∧
      (e.2 ∈ (ModelIndex.ofClasses classes).methodLabels ∨ isExternal e.2 = true) := by
  obtain ⟨c, -, he⟩ := List.mem_flatMap.1 he
  obtain ⟨m, -, he⟩ := List.mem_flatMap.1 he
  unfold methodEdges at he
  split at he
  · cases he
  next source hsource =>
    obtain ⟨target, htarget, rfl⟩ := List.mem_map.1 he
    obtain ⟨d, -, hd⟩ := List.mem_filterMap.1 htarget
    exact ⟨mem_methodLabels hsource, methodTarget?_eq_some hd⟩

/-- The nodes are the labels of the methods, and then the places where calls land. -/
theorem nodes_methodGraph (classes : List ClassRecord) (includeExternal : Bool) :
    (methodGraph classes includeExternal).nodes =
      ((methodCalls classes includeExternal).map Prod.snd).foldl OrderedSet.insert
        (.ofList (ModelIndex.ofClasses classes).methodLabels) := by
  show ((Digraph.addNodes ∅ _).addEdges (methodCalls classes includeExternal)).nodes = _
  exact Digraph.nodes_addEdges_addNodes fun e he => (mem_methodCalls he).1

/-! ## The part inside the model -/

/-- The nodes inside the model are the labels of its methods. -/
theorem filter_nodes_methodGraph (hclasses : ∀ c ∈ classes, isExternal c.resolvedName = false)
    (includeExternal : Bool) :
    (methodGraph classes includeExternal).nodes.toList.filter (!isExternal ·) =
      (OrderedSet.ofList (ModelIndex.ofClasses classes).methodLabels).toList := by
  set labels := (ModelIndex.ofClasses classes).methodLabels with hlabels
  have hself : (OrderedSet.ofList labels).toList.filter (!isExternal ·) =
      (OrderedSet.ofList labels).toList := by
    refine List.filter_eq_self.2 fun label hlabel => ?_
    rw [isExternal_methodLabel hclasses (OrderedSet.mem_toList_ofList.1 hlabel)]
    rfl
  rw [nodes_methodGraph, OrderedSet.filter_foldl_insert _ hself, OrderedSet.foldl_insert_of_subset]
  intro label hlabel
  obtain ⟨hmem, hext⟩ := List.mem_filter.1 hlabel
  obtain ⟨e, he, rfl⟩ := List.mem_map.1 hmem
  rw [OrderedSet.mem_ofList]
  refine (mem_methodCalls he).2.resolve_right fun h => ?_
  rw [h] at hext
  cases hext

/-- The successors inside the model do not depend on whether there are others. -/
theorem filter_row_methodGraph (hclasses : ∀ c ∈ classes, isExternal c.resolvedName = false)
    (includeExternal : Bool) (label : String) :
    ((methodGraph classes includeExternal).row label).toList.filter (!isExternal ·) =
      (OrderedSet.ofList
        (((methodCalls classes false).filter (·.1 = label)).map Prod.snd)).toList := by
  have hrow : (methodGraph classes includeExternal).row label =
      (((methodCalls classes includeExternal).filter (·.1 = label)).map Prod.snd).foldl
        OrderedSet.insert ∅ := by
    show ((Digraph.addNodes ∅ _).addEdges (methodCalls classes includeExternal)).row label = _
    rw [Digraph.row_addEdges, Digraph.row_addNodes, Digraph.row_empty]
  rw [hrow, OrderedSet.filter_foldl_insert (t := ∅) _ rfl, List.filter_map, List.filter_comm,
    ← filter_methodCalls hclasses includeExternal]
  rfl

/-- **The owners of the edges do not depend on the nodes outside the model.** -/
theorem edgeOwners_methodGraph {policy : CollisionPolicy} (hclasses : NoExternalNames classes)
    (includeExternal : Bool) :
    edgeOwners (.ofClasses policy classes) (methodGraph classes includeExternal) =
      edgeOwners (.ofClasses policy classes) (methodGraph classes false) := by
  have hnone : ∀ a b, (!isExternal a) = false ∨ (!isExternal b) = false →
      ownersOfEdge? (.ofClasses policy classes) (a, b) = none := by
    intro a b h
    simp only [Bool.not_eq_false'] at h
    unfold ownersOfEdge?
    rcases h with h | h
    · rw [resolveOwner?_of_isExternal hclasses h]
    · rw [resolveOwner?_of_isExternal hclasses h]
      split <;> simp_all
  have hnames := hclasses.isExternal_resolvedName
  rw [edgeOwners, edgeOwners, Digraph.filterMap_edges hnone, Digraph.filterMap_edges hnone,
    filter_nodes_methodGraph hnames, filter_nodes_methodGraph hnames]
  simp only [filter_row_methodGraph hnames]

end ModuleRecovery
