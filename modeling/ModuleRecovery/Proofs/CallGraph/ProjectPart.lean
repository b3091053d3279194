import ModuleRecovery.Dot.CallGraph
import ModuleRecovery.Proofs.CallGraph.Classes
import ModuleRecovery.Proofs.CallGraph.Methods
import ModuleRecovery.Report.Document

set_option relaxedAutoImplicit false
set_option autoImplicit false

/-!
# The project part of the call graphs

A call graph with nodes outside the model is built from more calls than one without, and these
calls are met between the others. Still the smaller graph can be read off the larger one: it is
what is left when the marked nodes and the edges that end in them are crossed out. The mark is a
piece of text at the beginning of a label, so this holds as long as no class is named with it.

## Main definitions

* `ModuleRecovery.IsProjectPart` — one graph is the part of another that is made of given names.
* `ModuleRecovery.ShowsOutside` — documents and drawings tell the nodes outside the project.

## Main results

* `ModuleRecovery.Digraph.nodes_addEdges_filter`, `ModuleRecovery.Digraph.row_addEdges_filter` —
  what is left of a graph when only the edges that end inside a part are added.
* `ModuleRecovery.isProjectPart_methodGraph`, `ModuleRecovery.isProjectPart_classGraph` — both
  call graphs without nodes outside the model are the project part of those with them.
* `ModuleRecovery.callGraphs_projectPart` — both graphs, with what documents and drawings say
  about their nodes.
-/

universe u

namespace ModuleRecovery

/-! ## The part of a graph that some edges build -/

namespace Digraph

variable {α : Type u} [DecidableEq α] {g h : Digraph α} {p : α → Bool} {es : List (α × α)}

/-- Leaving out the edges that end outside a part leaves out the nodes outside it. -/
theorem nodes_addEdges_filter (hg : ∀ a ∈ g.nodes, p a = true) (hes : ∀ e ∈ es, e.1 ∈ g.nodes) :
    (g.addEdges (es.filter fun e => p e.2)).nodes.toList =
      (g.addEdges es).nodes.toList.filter p := by
  have hself : g.nodes.toList.filter p = g.nodes.toList := List.filter_eq_self.2 hg
  rw [nodes_addEdges_of_mem fun e he => hes e (List.mem_of_mem_filter he),
    nodes_addEdges_of_mem hes, OrderedSet.filter_foldl_insert _ hself, List.filter_map]
  rfl

/-- It also leaves out the successors outside the part. -/
theorem row_addEdges_filter {a : α} (hrow : ∀ b ∈ g.row a, p b = true) :
    ((g.addEdges (es.filter fun e => p e.2)).row a).toList =
      ((g.addEdges es).row a).toList.filter p := by
  have hself : (g.row a).toList.filter p = (g.row a).toList := List.filter_eq_self.2 hrow
  rw [row_addEdges, row_addEdges, OrderedSet.filter_foldl_insert _ hself, List.filter_map,
    List.filter_comm]
  rfl

/-- If no edge starts outside a part, its edges are those that end inside it. -/
theorem edges_eq_filter (hnodes : h.nodes.toList = g.nodes.toList.filter p)
    (hrows : ∀ a, (h.row a).toList = (g.row a).toList.filter p)
    (hsources : ∀ e ∈ g.edges, p e.1 = true) : h.edges = g.edges.filter fun e => p e.2 := by
  set inside : α × α → Bool := fun e => p e.1 && p e.2 with hinside
  have hnone : ∀ a b, p a = false ∨ p b = false → Option.guard inside (a, b) = none := by
    rintro a b (ha | hb)
    · simp [Option.guard, hinside, ha]
    · simp [Option.guard, hinside, hb]
  have hsome : ∀ a ∈ g.nodes.toList.filter p, ((g.row a).toList.filter p).map (a, ·) =
      ((g.row a).toList.filter p).filterMap fun b => Option.guard inside (a, b) := by
    intro a ha
    rw [← List.filterMap_eq_map]
    refine List.filterMap_congr fun b hb => ?_
    simp [Option.guard, hinside, (List.mem_filter.1 ha).2, (List.mem_filter.1 hb).2]
  calc h.edges
      = (g.nodes.toList.filter p).flatMap fun a => ((g.row a).toList.filter p).map (a, ·) := by
        rw [edges_eq_flatMap, hnodes]
        simp only [hrows]
    _ = (g.nodes.toList.filter p).flatMap fun a =>
          ((g.row a).toList.filter p).filterMap fun b => Option.guard inside (a, b) :=
        List.flatMap_congr hsome
    _ = g.edges.filterMap (Option.guard inside) := (filterMap_edges hnone g).symm
    _ = g.edges.filter inside := by rw [List.filterMap_eq_filter]
    _ = g.edges.filter fun e => p e.2 :=
        List.filter_congr fun e he => by simp [hinside, hsources e he]

end Digraph

/-! ## Project parts -/

/-- The graph `part` is the part of `g` that is made of the names of a project: the marked nodes
of `g` are those with no such name, and `part` is `g` without them, everything in its order. -/
structure IsProjectPart (names : List String) (g part : Digraph String) : Prop where
  /-- The mark tells the nodes outside the project. -/
  isExternal_iff : ∀ node ∈ g.nodes, isExternal node = true ↔ node ∉ names
  /-- The nodes without the mark are left. -/
  nodes : part.nodes.toList = g.nodes.toList.filter (!isExternal ·)
  /-- The edges that end in such a node are left. -/
  edges : part.edges = g.edges.filter (!isExternal ·.2)

/-- A graph built from names and from calls has as its project part what the names build with the
calls that stay inside the project. -/
theorem isProjectPart_addEdges {names : List String} {calls calls' : List (String × String)}
    (hnames : ∀ name ∈ names, isExternal name = false)
    (hcalls : ∀ e ∈ calls, e.1 ∈ names ∧ (e.2 ∈ names ∨ isExternal e.2 = true))
    (hcalls' : calls.filter (!isExternal ·.2) = calls') :
    IsProjectPart names (((∅ : Digraph String).addNodes names).addEdges calls)
      (((∅ : Digraph String).addNodes names).addEdges calls') := by
  set start := (∅ : Digraph String).addNodes names with hstart
  have hmem : ∀ {name}, name ∈ start.nodes ↔ name ∈ names := by
    intro name
    rw [hstart, Digraph.nodes_addNodes]
    exact OrderedSet.mem_ofList
  have hrow : ∀ a, start.row a = ∅ := Digraph.row_addNodes ∅ names
  have hnodes : ∀ a ∈ start.nodes, (!isExternal a) = true := by
    intro a ha
    rw [hnames a (hmem.1 ha)]
    rfl
  have hsources : ∀ e ∈ calls, e.1 ∈ start.nodes := fun e he => hmem.2 (hcalls e he).1
  have hpart : (start.addEdges (calls.filter (!isExternal ·.2))).nodes.toList =
      (start.addEdges calls).nodes.toList.filter (!isExternal ·) :=
    Digraph.nodes_addEdges_filter hnodes hsources
  have hrows : ∀ a, ((start.addEdges (calls.filter (!isExternal ·.2))).row a).toList =
      ((start.addEdges calls).row a).toList.filter (!isExternal ·) := by
    intro a
    have hinside : ∀ b ∈ start.row a, (!isExternal b) = true := by
      intro b hb
      rw [hrow] at hb
      cases hb
    exact Digraph.row_addEdges_filter hinside
  rw [← hcalls']
  refine ⟨fun node hnode => ?_, hpart, Digraph.edges_eq_filter hpart hrows ?_⟩
  · constructor
    · rintro hext hname
      rw [hnames node hname] at hext
      cases hext
    · intro hname
      rw [Digraph.nodes_addEdges_of_mem hsources, OrderedSet.mem_foldl_insert, hmem] at hnode
      obtain ⟨e, he, rfl⟩ := List.mem_map.1 (hnode.resolve_left hname)
      exact (hcalls e he).2.resolve_left hname
  · rintro ⟨a, b⟩ he
    exact hnodes a (hsources _ (Digraph.mem_edges_addEdges_addNodes.1 he))

/-- What is shown of a call graph tells the nodes outside the project: its document flags them,
and its drawing dashes them. -/
structure ShowsOutside (names : List String) (g : Digraph String) : Prop where
  /-- The document flags the nodes outside the project and no others. -/
  flags : (GraphDocument.ofDigraph g).nodes =
    g.nodes.toList.map fun node => ⟨node, decide (node ∉ names)⟩
  /-- The drawing dashes the nodes outside the project and no others. -/
  styles : ∀ node ∈ g.nodes, nodeStyle node =
    if node ∈ names then ("filled", "#89b4fa") else ("filled,dashed", "#6c7086")

section

variable {names names' : List String} {g part : Digraph String}

/-- What is shown is right wherever the mark is. -/
theorem IsProjectPart.showsOutside (h : IsProjectPart names g part) : ShowsOutside names g where
  flags := by
    refine List.map_congr_left fun node hnode => congrArg _ ?_
    rw [Bool.eq_iff_iff, h.isExternal_iff node hnode, decide_eq_true_iff]
  styles node hnode := by
    have hiff := h.isExternal_iff node hnode
    by_cases hname : node ∈ names
    · rw [nodeStyle, if_neg fun hext => hiff.1 hext hname, if_pos hname]
    · rw [nodeStyle, if_pos (hiff.2 hname), if_neg hname]

/-- Only which names there are matters, not how they are listed. -/
theorem IsProjectPart.of_mem_iff (h : IsProjectPart names g part)
    (hnames : ∀ name, name ∈ names ↔ name ∈ names') : IsProjectPart names' g part where
  isExternal_iff node hnode := by rw [h.isExternal_iff node hnode, hnames]
  nodes := h.nodes
  edges := h.edges

end

/-! ## The two call graphs -/

variable {classes : List ClassRecord}

/-- **The call graph of methods without nodes outside the model is the project part of the one
with them.** -/
theorem isProjectPart_methodGraph (hclasses : ∀ c ∈ classes, isExternal c.resolvedName = false) :
    IsProjectPart (ModelIndex.ofClasses classes).methodLabels (methodGraph classes true)
      (methodGraph classes false) :=
  isProjectPart_addEdges (fun _ => isExternal_methodLabel hclasses)
    (fun _ he => mem_methodCalls he) (filter_methodCalls hclasses true)

/-- Without the nodes outside the model, a call lands on the class where it did before, if that
is inside. -/
theorem filter_classTarget? (hclasses : ∀ c ∈ classes, isExternal c.resolvedName = false)
    (includeExternal : Bool) (d : CallRecord) :
    (classTarget? (.ofClasses classes) includeExternal d).filter (!isExternal ·) =
      classTarget? (.ofClasses classes) false d := by
  unfold classTarget?
  cases htype : d.targetType? with
  | none => rfl
  | some type =>
    simp only [Option.bind_eq_bind, Option.bind_some]
    by_cases hclass : (ModelIndex.ofClasses classes).containsClass type = true
    · obtain ⟨c, hc, rfl⟩ := containsClass_ofClasses.1 hclass
      simp [hclass, hclasses c hc]
    · cases includeExternal with
      | false => simp [hclass]
      | true => simp [hclass, isExternal_externalNode]

theorem filter_classEdges (hclasses : ∀ c ∈ classes, isExternal c.resolvedName = false)
    (includeExternal : Bool) :
    (classes.flatMap (classEdges (.ofClasses classes) includeExternal)).filter
        (!isExternal ·.2) =
      classes.flatMap (classEdges (.ofClasses classes) false) := by
  have hedges : ∀ c, (classEdges (.ofClasses classes) includeExternal c).filter
      (fun e => !isExternal e.2) = classEdges (.ofClasses classes) false c := by
    intro c
    simp only [classEdges, List.filter_map, Function.comp_def]
    rw [List.filter_comm, List.filter_filterMap]
    simp only [filter_classTarget? hclasses]
  simp only [List.filter_flatMap, hedges]

/-- **The call graph of classes without nodes outside the model is the project part of the one
with them.** -/
theorem isProjectPart_classGraph (hclasses : ∀ c ∈ classes, isExternal c.resolvedName = false) :
    IsProjectPart (classes.map ClassRecord.resolvedName) (classGraph classes true)
      (classGraph classes false) := by
  set names := classes.map ClassRecord.resolvedName with hnames
  have hmem : ∀ name, name ∈ (OrderedSet.ofList names).toList ↔ name ∈ names :=
    fun _ => OrderedSet.mem_toList_ofList
  have hclass : ∀ {name}, name ∈ names ↔ ∃ c ∈ classes, c.resolvedName = name := List.mem_map
  refine IsProjectPart.of_mem_iff (isProjectPart_addEdges (fun name hname => ?_) ?_
    (filter_classEdges hclasses true)) hmem
  · obtain ⟨c, hc, rfl⟩ := hclass.1 ((hmem name).1 hname)
    exact hclasses c hc
  · rintro ⟨source, target⟩ he
    obtain ⟨-, c, hc, hsource, m, -, d, -, htarget⟩ := mem_flatMap_classEdges.1 he
    refine ⟨(hmem source).2 (hclass.2 ⟨c, hc, hsource⟩), ?_⟩
    cases htarget with
    | project _ h => exact .inl ((hmem target).2 (hclass.2 h))
    | external _ _ _ => exact .inr (isExternal_externalNode _)

/-- **Dropping the nodes outside the model leaves the project part of a call graph.** If no class
is named with the mark, then in either call graph the mark tells the nodes outside the project,
documents flag and drawings dash these nodes, and the graph built without them has the other
nodes and the edges that end in them, in the same order. The mark is on no method either, not even
on one whose label gave way to that of a later method with the same key.

**Proof sketch.** The mark has no dot in it, so the label of a method carries it only if its class
does. Hence a filter on the calls keeps those that land inside the project, and filters commute
with the insertion into ordered sets that builds both graphs. -/
theorem callGraphs_projectPart (hclasses : ∀ c ∈ classes, isExternal c.resolvedName = false) :
    let labels := (ModelIndex.ofClasses classes).methodLabels
    let names := classes.map ClassRecord.resolvedName
    (IsProjectPart labels (methodGraph classes true) (methodGraph classes false) ∧
      ShowsOutside labels (methodGraph classes true) ∧
      ∀ n ∈ methodNodes classes, isExternal n.label = false) ∧
    IsProjectPart names (classGraph classes true) (classGraph classes false) ∧
      ShowsOutside names (classGraph classes true) := by
  intro labels names
  have hmethods := isProjectPart_methodGraph hclasses
  have hclassGraph := isProjectPart_classGraph hclasses
  exact ⟨⟨hmethods, hmethods.showsOutside, fun _ => isExternal_methodNode hclasses⟩,
    hclassGraph, hclassGraph.showsOutside⟩

/-- A model that calls the printer before and after a call that stays inside, and that records
one of its classes twice. -/
def printingModel : List ClassRecord :=
  let print : CallRecord :=
    { name := "print", declaringType := some "java.io.Out",
      signature := some "java.io.Out.print()" }
  let ofPrice : CallRecord :=
    { name := "of", declaringType := some "shop.Price", signature := some "shop.Price.of()" }
  let total := (((MethodRecord.named "total").withCall print).withCall ofPrice).withCall print
  [(ClassRecord.ofQualifiedName "shop.Cart").withMethod total,
    (ClassRecord.ofQualifiedName "shop.Price").withMethod
      { name := "of", key := some "shop.Price.of()", calls := [print] },
    (ClassRecord.ofQualifiedName "shop.Cart").withMethod total]

/-- Without the printer, both call graphs of the shop are what is left of those with it. -/
theorem callGraphs_projectPart_printingModel :
    (∀ c ∈ printingModel, isExternal c.resolvedName = false) ∧
      IsProjectPart (ModelIndex.ofClasses printingModel).methodLabels
        (methodGraph printingModel true) (methodGraph printingModel false) ∧
      IsProjectPart (printingModel.map ClassRecord.resolvedName)
        (classGraph printingModel true) (classGraph printingModel false) := by
  have hclasses : ∀ c ∈ printingModel, isExternal c.resolvedName = false := by decide
  obtain ⟨⟨hmethods, -⟩, hclassGraph, -⟩ := callGraphs_projectPart hclasses
  exact ⟨hclasses, hmethods, hclassGraph⟩

end ModuleRecovery
