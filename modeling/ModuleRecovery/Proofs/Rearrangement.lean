import ModuleRecovery.Proofs.Analysis
import ModuleRecovery.Proofs.CallGraph.Classes
import ModuleRecovery.Proofs.CallGraph.Denotation
import ModuleRecovery.Proofs.Coupling.Table
import ModuleRecovery.Proofs.Model.Rearrangement

set_option relaxedAutoImplicit false
set_option autoImplicit false

/-!
# The analysis of a rearranged model

The order of the methods and of the calls shows in the two call graphs, and only in the order
in which these list their nodes and edges. The coupling counts edges, so it is the same for a
rearranged model, and with it everything that follows from the coupling.

## Main definitions

* `ModuleRecovery.AnalysisReport.SameButOrder` — two reports that differ in this order only.

## Main results

* `ModuleRecovery.SameContents.perm_edges_methodGraph`,
  `ModuleRecovery.SameContents.perm_edges_classGraph` — the call graphs have the same edges.
* `ModuleRecovery.SameContents.coupling_eq` — the coupling is the same.
* `ModuleRecovery.analyze_rearranges` — so is the report, but for the order in the call graphs.
-/

namespace ModuleRecovery

open Relation

/-- Two reports that differ only in the order in which the call graphs list their nodes and
edges. -/
structure AnalysisReport.SameButOrder (r r' : AnalysisReport) : Prop where
  /-- The classes. -/
  classes : r'.classes = r.classes
  /-- The coupling graph, with the order of its edges and their weights. -/
  couplingGraph : r'.couplingGraph = r.couplingGraph
  /-- The dendrogram. -/
  dendrogram : r'.dendrogram = r.dendrogram
  /-- The modules. -/
  partition : r'.partition = r.partition
  /-- The linkage. -/
  linkage : r'.linkage = r.linkage
  /-- The threshold. -/
  cohesionThreshold : r'.cohesionThreshold = r.cohesionThreshold
  /-- The nodes of the call graph of methods. -/
  methodNodes : r'.methodGraph.nodes.toList.Perm r.methodGraph.nodes.toList
  /-- The edges of the call graph of methods. -/
  methodEdges : r'.methodGraph.edges.Perm r.methodGraph.edges
  /-- The nodes of the call graph of classes. -/
  classNodes : r'.classGraph.nodes.toList.Perm r.classGraph.nodes.toList
  /-- The edges of the call graph of classes. -/
  classEdges : r'.classGraph.edges.Perm r.classGraph.edges

/-! ## Graphs with the same nodes and edges -/

/-- Graphs with the same nodes list them up to their order. -/
theorem Digraph.perm_nodes {g g' : Digraph String} (h : ∀ a, a ∈ g'.nodes ↔ a ∈ g.nodes) :
    g'.nodes.toList.Perm g.nodes.toList :=
  (List.perm_ext_iff_of_nodup g'.nodes.nodup g.nodes.nodup).2 h

/-- Graphs with the same edges list them up to their order. -/
theorem Digraph.perm_edges {g g' : Digraph String}
    (h : ∀ a b, (a, b) ∈ g'.edges ↔ (a, b) ∈ g.edges) : g'.edges.Perm g.edges :=
  (List.perm_ext_iff_of_nodup g'.nodup_edges g.nodup_edges).2 fun e => h e.1 e.2

variable {classes classes' : List ClassRecord} {includeExternal : Bool} {source target : String}
  {d : CallRecord}

/-- The calls of the method graph, from the list of all calls. -/
theorem methodCall_iff :
    MethodCall classes includeExternal source target ↔
      ∃ x ∈ ownedCalls classes, lastLabel? classes x.source.key = some source ∧
        CallTarget classes includeExternal x.call target := by
  simp only [mem_ownedCalls]
  constructor
  · rintro ⟨c, hc, m, hm, d, hd, h⟩
    exact ⟨_, ⟨c, hc, m, hm, d, hd, rfl⟩, h⟩
  · rintro ⟨_, ⟨c, hc, m, hm, d, hd, rfl⟩, h⟩
    exact ⟨c, hc, m, hm, d, hd, h⟩

/-- The calls of the class graph, from the list of all calls. -/
theorem classCall_iff :
    ClassCall classes includeExternal source target ↔
      target ≠ source ∧ ∃ x ∈ ownedCalls classes, x.owner = source ∧
        ClassTarget classes includeExternal x.call target := by
  simp only [mem_ownedCalls]
  refine and_congr_right fun _ => ⟨?_, ?_⟩
  · rintro ⟨c, hc, rfl, m, hm, d, hd, h⟩
    exact ⟨_, ⟨c, hc, m, hm, d, hd, rfl⟩, rfl, h⟩
  · rintro ⟨_, ⟨c, hc, m, hm, d, hd, rfl⟩, rfl, h⟩
    exact ⟨c, hc, rfl, m, hm, d, hd, h⟩

namespace SameContents

/-! ## The call graph of methods -/

/-- A call lands at the same place in both models. -/
theorem callTarget_iff (h : SameContents classes classes') (hlabels : LabelsAgree classes) :
    CallTarget classes' includeExternal d target ↔ CallTarget classes includeExternal d target := by
  have hlast := h.lastLabel?_eq hlabels
  have hkeys : ∀ key, (∀ n ∈ ModuleRecovery.methodNodes classes', n.key ≠ key) ↔
      ∀ n ∈ ModuleRecovery.methodNodes classes, n.key ≠ key := fun key => by
    simp only [h.methodNodes.mem_iff]
  constructor
  · rintro (⟨hkey, hlabel⟩ | ⟨hkey, hnone, hshown⟩)
    · exact .project hkey (hlast _ ▸ hlabel)
    · exact .external hkey ((hkeys _).1 hnone) hshown
  · rintro (⟨hkey, hlabel⟩ | ⟨hkey, hnone, hshown⟩)
    · exact .project hkey (hlast _ ▸ hlabel)
    · exact .external hkey ((hkeys _).2 hnone) hshown

/-- The calls of both models join the same labels. -/
theorem methodCall_iff (h : SameContents classes classes') (hlabels : LabelsAgree classes) :
    MethodCall classes' includeExternal source target ↔
      MethodCall classes includeExternal source target := by
  rw [ModuleRecovery.methodCall_iff, ModuleRecovery.methodCall_iff]
  simp only [h.ownedCalls.mem_iff, h.lastLabel?_eq hlabels, h.callTarget_iff hlabels]

theorem perm_nodes_methodGraph (h : SameContents classes classes') (hlabels : LabelsAgree classes)
    (includeExternal : Bool) :
    (methodGraph classes' includeExternal).nodes.toList.Perm
      (methodGraph classes includeExternal).nodes.toList := by
  refine Digraph.perm_nodes fun label => ?_
  simp only [mem_nodes_methodGraph, h.lastLabel?_eq hlabels, h.methodCall_iff hlabels]

/-- **The call graphs of methods have the same edges.** -/
theorem perm_edges_methodGraph (h : SameContents classes classes') (hlabels : LabelsAgree classes)
    (includeExternal : Bool) :
    (methodGraph classes' includeExternal).edges.Perm
      (methodGraph classes includeExternal).edges := by
  refine Digraph.perm_edges fun a b => ?_
  rw [mem_edges_methodGraph, mem_edges_methodGraph, h.methodCall_iff hlabels]

/-! ## The call graph of classes -/

/-- A call lands on the same class in both models. -/
theorem classTarget_iff (h : SameContents classes classes') :
    ClassTarget classes' includeExternal d target ↔
      ClassTarget classes includeExternal d target := by
  constructor
  · rintro (⟨htype, hclass⟩ | ⟨htype, hnone, hshown⟩)
    · exact .project htype (h.exists_resolvedName_iff.1 hclass)
    · exact .external htype (mt h.exists_resolvedName_iff.2 hnone) hshown
  · rintro (⟨htype, hclass⟩ | ⟨htype, hnone, hshown⟩)
    · exact .project htype (h.exists_resolvedName_iff.2 hclass)
    · exact .external htype (mt h.exists_resolvedName_iff.1 hnone) hshown

/-- The calls of both models join the same classes. -/
theorem classCall_iff (h : SameContents classes classes') :
    ClassCall classes' includeExternal source target ↔
      ClassCall classes includeExternal source target := by
  rw [ModuleRecovery.classCall_iff, ModuleRecovery.classCall_iff]
  simp only [h.ownedCalls.mem_iff, h.classTarget_iff]

theorem perm_nodes_classGraph (h : SameContents classes classes') (includeExternal : Bool) :
    (classGraph classes' includeExternal).nodes.toList.Perm
      (classGraph classes includeExternal).nodes.toList := by
  refine Digraph.perm_nodes fun name => ?_
  simp only [mem_nodes_classGraph, h.exists_resolvedName_iff, h.classCall_iff]

/-- **The call graphs of classes have the same edges.** -/
theorem perm_edges_classGraph (h : SameContents classes classes') (includeExternal : Bool) :
    (classGraph classes' includeExternal).edges.Perm
      (classGraph classes includeExternal).edges := by
  refine Digraph.perm_edges fun a b => ?_
  rw [mem_edges_classGraph, mem_edges_classGraph, h.classCall_iff]

/-! ## The coupling -/

/-- Both models read the owners of labels alike. -/
theorem resolver_eq (h : SameContents classes classes') (policy : CollisionPolicy) :
    OwnerResolver.ofClasses policy classes' = .ofClasses policy classes := by
  simp only [OwnerResolver.ofClasses, OwnerResolver.ofIndex, ModelIndex.ofClasses,
    h.map_resolvedName, h.names]

/-- **The coupling is the same**: it counts edges, in whatever order. -/
theorem coupling_eq (h : SameContents classes classes') (hlabels : LabelsAgree classes)
    (includeExternal : Bool) :
    (CouplingTable.ofClasses classes' (methodGraph classes' includeExternal)).coupling =
      (CouplingTable.ofClasses classes (methodGraph classes includeExternal)).coupling := by
  have howners : (edgeOwners (.ofClasses .lastRegistered classes')
      (methodGraph classes' includeExternal)).Perm
      (edgeOwners (.ofClasses .lastRegistered classes) (methodGraph classes includeExternal)) := by
    rw [h.resolver_eq]
    exact (h.perm_edges_methodGraph hlabels includeExternal).filterMap _
  obtain ⟨hresolved, hbetween⟩ := CouplingTable.ofOwners_perm howners
  funext a b
  simp only [CouplingTable.coupling, CouplingTable.ofClasses, CouplingTable.ofGraph, hresolved,
    hbetween]

end SameContents

/-! ## The report -/

/-- The coupling graph depends on the coupling of the table only. -/
theorem couplingGraph_congr {table table' : CouplingTable} (h : table'.coupling = table.coupling)
    (names : List String) : couplingGraph table' names = couplingGraph table names := by
  simp only [couplingGraph, h]

/-- Two models with the same class names are refused for the same class, or not at all. -/
theorem SameContents.validateClasses_eq (h : SameContents classes classes') :
    validateClasses classes' = validateClasses classes := by
  have hmap : ∀ cs : List ClassRecord, cs.findIdx? (fun c => decide (c.resolvedName = "")) =
      (cs.map ClassRecord.resolvedName).findIdx? (· = "") := fun cs => by
    rw [List.findIdx?_map]
    rfl
  rw [validateClasses, validateClasses, hmap, hmap, h.map_resolvedName]

/-- **The order of methods and calls does not matter.** Let a model be rearranged: methods change
places inside a record or between records of one class, and calls inside a method. If no two
methods share a key under different labels, an analysis under the same settings fails alike on
both models, or finds the same classes, the same coupling graph, the same dendrogram and the same
partition, and call graphs with the same nodes and the same edges. Under valid settings a valid
model has a report.

**Proof sketch.** A rearranged model has the same contents up to their order, so its calls join
the same labels. Hence the method graph has the same edges, and the coupling counts them. -/
theorem analyze_rearranges (h : ReflTransGen Rearranges classes classes')
    (hlabels : LabelsAgree classes) (settings : Settings) :
    (∀ e, analyze classes settings = .error e → analyze classes' settings = .error e) ∧
      (∀ r, analyze classes settings = .ok r →
        ∃ r', analyze classes' settings = .ok r' ∧ r.SameButOrder r') ∧
      (validateClasses classes = .ok () → settings.validate = .ok () →
        ∃ r, analyze classes settings = .ok r) := by
  have hsame := sameContents_of_rearranges h
  have hvalid := hsame.validateClasses_eq
  refine ⟨fun e he => ?_, fun r hr => ?_, fun hc hs => ?_⟩
  · cases hs : settings.validate with
    | error e' =>
      rw [analyze, hs] at he ⊢
      exact he
    | ok =>
      cases hc : validateClasses classes with
      | error e' =>
        rw [analyze, hs, hc] at he
        rw [analyze, hs, hvalid, hc]
        exact he
      | ok =>
        obtain ⟨_, -, hr⟩ := analyze_eq_ok settings hs hc
        rw [hr] at he
        cases he
  · obtain ⟨hs, hc⟩ := validate_of_analyze_eq_ok hr
    obtain ⟨p, hp, hok⟩ := analyze_eq_ok settings hs hc
    obtain ⟨p', hp', hok'⟩ := analyze_eq_ok settings hs (hvalid.trans hc)
    obtain rfl := Except.ok.inj (hr.symm.trans hok)
    have hnames : classNames classes' = classNames classes := by
      rw [classNames, classNames, hsame.map_resolvedName]
    have hcoupling := hsame.coupling_eq hlabels settings.includeExternal
    rw [hnames, hcoupling, hp] at hp'
    obtain rfl := Except.ok.inj hp'
    refine ⟨_, hok', ?_⟩
    exact
      { classes := by rw [hnames]
        couplingGraph := by rw [hnames, couplingGraph_congr hcoupling]
        dendrogram := by rw [hnames, hcoupling]
        partition := rfl
        linkage := rfl
        cohesionThreshold := rfl
        methodNodes := hsame.perm_nodes_methodGraph hlabels _
        methodEdges := hsame.perm_edges_methodGraph hlabels _
        classNodes := hsame.perm_nodes_classGraph _
        classEdges := hsame.perm_edges_classGraph _ }
  · obtain ⟨_, -, hr⟩ := analyze_eq_ok settings hs hc
    exact ⟨_, hr⟩

/-- The crowded shop with the given methods in the two records of the cart. -/
def crowdedShopWith (ms ns : List MethodRecord) : List ClassRecord :=
  [{ ClassRecord.ofQualifiedName "shop.Cart" with methods := ms },
    (ClassRecord.ofQualifiedName "shop.Price").withMethod
      { name := "of", key := some "shop.Price.of()" },
    .ofQualifiedName "shop.Till",
    { ClassRecord.ofQualifiedName "shop.Cart" with methods := ns }]

/-- The method of the cart, with its two calls in either order. -/
def cartTotal (priceFirst : Bool) : MethodRecord :=
  let ofPrice : CallRecord :=
    { name := "of", declaringType := some "shop.Price", signature := some "shop.Price.of()" }
  let print : CallRecord := { name := "print", signature := some "java.io.Out.print()" }
  { name := "total", calls := if priceFirst then [ofPrice, print] else [print, ofPrice] }

/-- The calls of the method of the cart change places, and then the method goes to the second
record of the cart. -/
theorem rearranges_crowdedShopModel :
    ReflTransGen Rearranges crowdedShopModel (crowdedShopWith [] [cartTotal false]) := by
  have hcalls : Rearranges crowdedShopModel (crowdedShopWith [cartTotal false] []) :=
    @Rearranges.permuteCalls [] _ _ [] [] (cartTotal true) _ rfl (.swap _ _ [])
  have hmethods : Rearranges (crowdedShopWith [cartTotal false] [])
      (crowdedShopWith [] [cartTotal false]) :=
    @Rearranges.moveMethods [] [_, _] [] _ _ [] [cartTotal false] rfl (.refl _)
  exact .tail (.single hcalls) hmethods

/-- The two crowded shops have the same report, but for the order in the call graphs. -/
theorem analyze_rearranges_crowdedShopModel :
    ReflTransGen Rearranges crowdedShopModel (crowdedShopWith [] [cartTotal false]) ∧
      LabelsAgree crowdedShopModel ∧
      ∃ r r', analyze crowdedShopModel {} = .ok r ∧
        analyze (crowdedShopWith [] [cartTotal false]) {} = .ok r' ∧ r.SameButOrder r' := by
  have hlabels : LabelsAgree crowdedShopModel := by
    unfold LabelsAgree
    decide +kernel
  obtain ⟨-, hok, hvalid⟩ := analyze_rearranges rearranges_crowdedShopModel hlabels {}
  obtain ⟨r, hr⟩ := hvalid rfl rfl
  obtain ⟨r', hr', hsame⟩ := hok r hr
  exact ⟨rearranges_crowdedShopModel, hlabels, r, r', hr, hr', hsame⟩
end ModuleRecovery
