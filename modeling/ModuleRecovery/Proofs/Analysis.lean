import ModuleRecovery.Analysis
import ModuleRecovery.Proofs.CallGraph.Methods
import ModuleRecovery.Proofs.Clustering.Shape
import ModuleRecovery.Proofs.Coupling.Graph
import ModuleRecovery.Proofs.Number.UnitInterval
import ModuleRecovery.Proofs.Partition.Average

set_option relaxedAutoImplicit false
set_option autoImplicit false

/-!
# What an analysis depends on

Under valid settings and a valid model, an analysis always finds a report. All of it but the
two call graphs follows from the names of the classes and from one table of edge counts, and
the table counts only edges inside the model. The coupling graph of a report says as much about
this table as the clustering and the partition ever ask.

## Main results

* `ModuleRecovery.analyze_eq_ok` — the report of an analysis.
* `ModuleRecovery.analyze_includeExternal` — showing nodes outside the model changes the call
  graphs only.
* `ModuleRecovery.analyze_couplingGraph` — the coupling graph of a report determines the rest.
-/

namespace ModuleRecovery

open Number

variable {classes : List ClassRecord}

/-- A threshold that passes the check is a number between zero and one. -/
theorem Settings.inUnit_cohesionThreshold {settings : Settings}
    (h : settings.validate = .ok ()) : InUnit settings.cohesionThreshold := by
  unfold validate at h
  split at h
  · cases h
  next hrange =>
    simp only [Bool.not_eq_true', Bool.not_eq_false, Bool.and_eq_true, decide_eq_true_eq] at hrange
    exact inUnit_of_le hrange.1 hrange.2

/-- A dendrogram can be cut under any finite threshold. -/
theorem exists_partitionOf (dendrogram : Option (Dendrogram String))
    (coupling : String → String → Float) {threshold : Float} (h : threshold.isFinite = true) :
    ∃ partition, partitionOf dendrogram coupling threshold = .ok partition := by
  cases dendrogram with
  | none => exact ⟨none, rfl⟩
  | some root =>
    obtain ⟨p, hp⟩ : ∃ p, identify root coupling threshold = .ok p := ⟨_, if_pos h⟩
    refine ⟨some p, ?_⟩
    rw [partitionOf, hp]
    rfl

/-- **The report of an analysis.** Under valid settings, a valid model has a report, whose parts
follow from the call graph of methods. -/
theorem analyze_eq_ok (settings : Settings) (hs : settings.validate = .ok ())
    (hc : validateClasses classes = .ok ()) :
    let methods := methodGraph classes settings.includeExternal
    let table := CouplingTable.ofClasses classes methods
    let names := (classNames classes).toList
    let dendrogram := cluster names table.coupling settings.linkage
    ∃ partition,
      partitionOf dendrogram table.coupling settings.cohesionThreshold = .ok partition ∧
        analyze classes settings = .ok
          { classes := names
            methodGraph := methods
            classGraph := classGraph classes settings.includeExternal
            couplingGraph := couplingGraph table names
            dendrogram
            partition
            linkage := settings.linkage
            cohesionThreshold := settings.cohesionThreshold } := by
  intro methods table names dendrogram
  obtain ⟨partition, hpartition⟩ := exists_partitionOf dendrogram table.coupling
    (Settings.inUnit_cohesionThreshold hs).finite
  refine ⟨partition, hpartition, ?_⟩
  unfold analyze
  rw [hs, hc]
  show (partitionOf dendrogram table.coupling settings.cohesionThreshold >>= _) = _
  rw [hpartition]
  rfl

/-- **Showing nodes outside the model changes the call graphs only.** For a model in which no
class is named like such a node, two analyses that differ in nothing else find the same classes,
the same coupling graph, the same dendrogram and the same partition.

**Proof sketch.** The owners of the edges are the same for both call graphs of methods, hence so
are the two tables of counts. -/
theorem analyze_includeExternal (hclasses : NoExternalNames classes)
    (hc : validateClasses classes = .ok ()) {settings : Settings}
    (hs : settings.validate = .ok ()) (shown shown' : Bool) :
    ∃ r r', analyze classes { settings with includeExternal := shown } = .ok r ∧
      analyze classes { settings with includeExternal := shown' } = .ok r' ∧
      r.classes = r'.classes ∧ r.couplingGraph = r'.couplingGraph ∧
      r.dendrogram = r'.dendrogram ∧ r.partition = r'.partition := by
  have htable : ∀ b, CouplingTable.ofClasses classes (methodGraph classes b) =
      CouplingTable.ofClasses classes (methodGraph classes false) := fun b =>
    congrArg CouplingTable.ofOwners (edgeOwners_methodGraph hclasses b)
  obtain ⟨p, hp, hr⟩ := analyze_eq_ok { settings with includeExternal := shown } hs hc
  obtain ⟨p', hp', hr'⟩ := analyze_eq_ok { settings with includeExternal := shown' } hs hc
  simp only [htable shown, htable shown'] at hp hp' hr hr'
  rw [hp] at hp'
  obtain rfl := Except.ok.inj hp'
  exact ⟨_, _, hr, hr', rfl, rfl, rfl, rfl⟩

/-- A model whose only call between two classes also calls something outside the model. -/
def shopModel : List ClassRecord :=
  let ofPrice : CallRecord :=
    { name := "of", declaringType := some "shop.Price", signature := some "shop.Price.of()" }
  let print : CallRecord := { name := "print", signature := some "java.io.Out.print()" }
  [(ClassRecord.ofQualifiedName "shop.Cart").withMethod
      (((MethodRecord.named "total").withCall ofPrice).withCall print),
    (ClassRecord.ofQualifiedName "shop.Price").withMethod
      { name := "of", key := some "shop.Price.of()" }]

/-- Hiding the printer changes nothing but the call graphs of the shop. -/
theorem analyze_includeExternal_shopModel :
    NoExternalNames shopModel ∧ validateClasses shopModel = .ok () ∧
      ({} : Settings).validate = .ok () ∧
      ∃ r r', analyze shopModel { includeExternal := true } = .ok r ∧
        analyze shopModel { includeExternal := false } = .ok r' ∧
        r.classes = r'.classes ∧ r.couplingGraph = r'.couplingGraph ∧
        r.dendrogram = r'.dendrogram ∧ r.partition = r'.partition := by
  have hclasses : NoExternalNames shopModel := by
    unfold NoExternalNames
    decide
  have hc : validateClasses shopModel = .ok () := by rfl
  have hs : ({} : Settings).validate = .ok () := rfl
  exact ⟨hclasses, hc, hs, analyze_includeExternal hclasses hc hs true false⟩

/-! ## What the coupling graph tells -/

/-- Only valid settings and a valid model have a report. -/
theorem validate_of_analyze_eq_ok {settings : Settings} {r : AnalysisReport}
    (h : analyze classes settings = .ok r) :
    settings.validate = .ok () ∧ validateClasses classes = .ok () := by
  unfold analyze at h
  cases hs : settings.validate with
  | error e =>
    rw [hs] at h
    cases h
  | ok =>
    cases hc : validateClasses classes with
    | error e =>
      rw [hs, hc] at h
      cases h
    | ok => exact ⟨rfl, rfl⟩

/-- What is partitioned is the dendrogram, if there is one. -/
theorem partitionOf_eq_ok {dendrogram : Option (Dendrogram String)}
    {coupling : String → String → Float} {threshold : Float}
    {partition : Option (Partition String)}
    (h : partitionOf dendrogram coupling threshold = .ok partition) :
    (∀ root, dendrogram = some root →
      ∃ p, partition = some p ∧ identify root coupling threshold = .ok p) ∧
      (dendrogram = none → partition = none) := by
  constructor
  · rintro root rfl
    rw [partitionOf] at h
    cases hp : identify root coupling threshold with
    | error e =>
      rw [hp] at h
      cases h
    | ok p =>
      rw [hp] at h
      exact ⟨p, (Except.ok.inj h).symm, rfl⟩
  · rintro rfl
    exact (Except.ok.inj h).symm

/-- **The coupling graph of a report determines the rest.** Read with zero for the pairs without
an edge, it leads to the dendrogram and to the partition of the report.

**Proof sketch.** After clamping, the weights of the graph are the couplings of the table, for
any two different classes. The clustering and the partition ask for clamped couplings of
different classes only. -/
theorem analyze_couplingGraph {settings : Settings} {r : AnalysisReport}
    (h : analyze classes settings = .ok r) :
    let sim := fun a b => (r.couplingGraph.weight? a b).getD 0
    cluster r.classes sim r.linkage = r.dendrogram ∧
      (∀ root, r.dendrogram = some root →
        ∃ p, r.partition = some p ∧ identify root sim r.cohesionThreshold = .ok p) ∧
      (r.dendrogram = none → r.partition = none) := by
  obtain ⟨hs, hc⟩ := validate_of_analyze_eq_ok h
  obtain ⟨partition, hpartition, hr⟩ := analyze_eq_ok settings hs hc
  obtain rfl := Except.ok.inj (h.symm.trans hr)
  intro sim
  set names := (classNames classes).toList with hnames
  set table := CouplingTable.ofClasses classes (methodGraph classes settings.includeExternal)
  have hnd : names.Nodup := (classNames classes).nodup
  have hdups : names.eraseDups = names := OrderedSet.eraseDups_toList _
  have hagree : ∀ l : List String, l.Nodup → l ⊆ names →
      l.Pairwise fun a b => clampUnit (sim a b) = clampUnit (table.coupling a b) :=
    fun l hl hsub => hl.imp_of_mem fun ha hb hab =>
      clampUnit_weight?_couplingGraph hnd (hsub ha) (hsub hb) hab
  obtain ⟨hsome, hnone⟩ := partitionOf_eq_ok hpartition
  refine ⟨cluster_congr (hagree _ (OrderedSet.nodup_eraseDups _) ?_) _, fun root hroot => ?_,
    hnone⟩
  · rw [hdups]
    exact List.Subset.refl _
  · obtain ⟨hbuilt, hperm⟩ := (isGreedyTree_of_cluster_eq_some hroot).mergeBuilt
    rw [hdups] at hperm
    obtain ⟨p, hp, hidentify⟩ := hsome root hroot
    refine ⟨p, hp, ?_⟩
    rw [← hidentify]
    exact identify_congr hbuilt (hagree _ (hperm.nodup_iff.2 hnd) hperm.subset) _

/-- The shop with a class that calls nothing, and with a second record of the cart. -/
def crowdedShopModel : List ClassRecord :=
  shopModel ++ [.ofQualifiedName "shop.Till", .ofQualifiedName "shop.Cart"]

set_option maxRecDepth 4000 in
/-- The coupling graph of the crowded shop joins the cart and the price only, and leads to the
dendrogram and the partition of the shop. -/
theorem analyze_couplingGraph_crowdedShopModel :
    ∃ r, analyze crowdedShopModel {} = .ok r ∧
      r.couplingGraph.weight? "shop.Price" "shop.Cart" = some 1 ∧
      r.couplingGraph.weight? "shop.Price" "shop.Till" = none ∧
      cluster r.classes (fun a b => (r.couplingGraph.weight? a b).getD 0) r.linkage =
        r.dendrogram ∧
      ∃ root p, r.dendrogram = some root ∧ r.partition = some p ∧
        identify root (fun a b => (r.couplingGraph.weight? a b).getD 0) r.cohesionThreshold =
          .ok p := by
  have hc : validateClasses crowdedShopModel = .ok () := by rfl
  obtain ⟨_, -, hr⟩ := analyze_eq_ok {} rfl hc
  obtain ⟨hcluster, hpartition, -⟩ := analyze_couplingGraph hr
  have hne : (classNames crowdedShopModel).toList ≠ [] := by decide +kernel
  obtain ⟨root, hroot, -⟩ := exists_cluster hne
    (CouplingTable.ofClasses crowdedShopModel (methodGraph crowdedShopModel true)).coupling .single
  obtain ⟨p, hp, hidentify⟩ := hpartition root hroot
  exact ⟨_, hr, rfl, rfl, hcluster, root, p, hroot, hp, hidentify⟩

end ModuleRecovery
