import ModuleRecovery.Proofs.Analysis
import ModuleRecovery.Proofs.CallGraph.Classes
import ModuleRecovery.Proofs.Partition.FrontierCut

set_option relaxedAutoImplicit false
set_option autoImplicit false

/-!
# The outcome of an analysis

An analysis checks its settings, then its model, and after that it cannot fail any more: the
partition gets a finite threshold, and whatever a later stage looks up by a position or by a key
was put there before. Each stage collects the classes on its own, some of them from records that
occur twice, and still all parts of a report speak about the same classes.

## Main definitions

* `ModuleRecovery.FindsAll` — what an analysis looks up is there.
* `ModuleRecovery.SameClasses` — all parts of a report speak about the same classes.

## Main results

* `ModuleRecovery.analyze_eq_error_iff` — when an analysis is refused, and why.
* `ModuleRecovery.findsAll` — no stage of an analysis looks for something in vain.
* `ModuleRecovery.sameClasses_of_analyze_eq_ok` — the parts of a report.
* `ModuleRecovery.analyze_outcome` — what can come out of an analysis.
-/

namespace ModuleRecovery

variable {classes : List ClassRecord} {settings : Settings} {e : AnalysisError}

/-! ## Refusals -/

/-- Under valid settings any dendrogram has a partition. -/
theorem exists_identify (hs : settings.validate = .ok ()) (root : Dendrogram String)
    (coupling : String → String → Float) :
    ∃ p, identify root coupling settings.cohesionThreshold = .ok p :=
  ⟨_, if_pos (Settings.inUnit_cohesionThreshold hs).finite⟩

/-- **An analysis is refused exactly if one of the two checks refuses it**, first that of the
settings and then that of the model, and for the reason that this check gives. -/
theorem analyze_eq_error_iff :
    analyze classes settings = .error e ↔ settings.validate = .error e ∨
      (settings.validate = .ok () ∧ validateClasses classes = .error e) := by
  cases hs : settings.validate with
  | error e' =>
    have herror : analyze classes settings = .error e' := by
      unfold analyze
      rw [hs]
      rfl
    simp [herror]
  | ok =>
    cases hc : validateClasses classes with
    | error e' =>
      have herror : analyze classes settings = .error e' := by
        unfold analyze
        rw [hs, hc]
        rfl
      simp [herror]
    | ok =>
      obtain ⟨partition, -, hr⟩ := analyze_eq_ok settings hs hc
      simp [hr]

/-! ## Look-ups -/

/-- What an analysis looks up by a position or by a key is there, at every stage: while graphs
grow, while clusters are merged, and while modules are split. -/
structure FindsAll (classes : List ClassRecord) (settings : Settings) : Prop where
  /-- The source of an edge has its successors in a growing call graph. -/
  successors : ∀ (g : Digraph String) (a b : String),
    ∃ targets, ((g.addNode a).addNode b).successors? a = some targets
  /-- The ends of an edge have positions in a growing coupling graph. -/
  positions : ∀ (nodes : OrderedSet String) (a b : String),
    ∃ i j, ((nodes.insert a).insert b).position? a = some i ∧
      ((nodes.insert a).insert b).position? b = some j
  /-- Clusters and similarities are found in every round of merges. -/
  rounds : let names := (classNames classes).toList
    let table := CouplingTable.ofClasses classes (methodGraph classes settings.includeExternal)
    ∀ k, k + 1 < names.length →
      RoundInRange names table.coupling settings.linkage
        (mergeRounds settings.linkage (.ofList names table.coupling) k (singletons names))
  /-- A candidate that is chosen for a split is found, and so are its children. -/
  splits : ∀ (candidates : List (Candidate String)) (i : Nat),
    Candidate.worst? settings.cohesionThreshold candidates = some i →
      ∃ c l r, candidates[i]? = some c ∧ c.node.children? = some (l, r)
  /-- The ends of the edges of the coupling graph are found when it is read, the earlier one
  first, and so are the weights. -/
  edges : ∀ r, analyze classes settings = .ok r → ∀ e ∈ r.couplingGraph.edges,
    (∃ i j, r.couplingGraph.nodes.position? e.first = some i ∧
      r.couplingGraph.nodes.position? e.second = some j ∧ i < j) ∧
    r.couplingGraph.weight? e.first e.second = some e.weight

/-- Every node of a call graph has its successors. -/
theorem Digraph.exists_successors? {g : Digraph String} {a : String} (h : a ∈ g.nodes) :
    ∃ targets, g.successors? a = some targets :=
  g.rows.mem_keys_iff.1 h

/-- **No stage of an analysis looks for something in vain.** -/
theorem findsAll (classes : List ClassRecord) (settings : Settings) :
    FindsAll classes settings where
  successors g a b := Digraph.exists_successors? (by simp)
  positions nodes a b := by
    have ha : a ∈ (nodes.insert a).insert b := by simp
    have hb : b ∈ (nodes.insert a).insert b := by simp
    obtain ⟨i, hi⟩ := OrderedSet.exists_position? ha
    obtain ⟨j, hj⟩ := OrderedSet.exists_position? hb
    exact ⟨i, j, hi, hj⟩
  rounds k hk := (roundInRange_mergeRounds _ _ settings.linkage hk).2
  splits candidates i h := by
    obtain ⟨c, hc, hwants⟩ := Candidate.worst?_eq_some h
    obtain ⟨l, r, height, ms, hnode, -⟩ := Candidate.split_eq (fun _ _ => 0) hc hwants
    exact ⟨c, l, r, hc, Dendrogram.children?_eq_some_iff.2 ⟨height, ms, hnode⟩⟩
  edges r hr e he := by
    obtain ⟨hs, hc⟩ := validate_of_analyze_eq_ok hr
    obtain ⟨partition, -, hr'⟩ := analyze_eq_ok settings hs hc
    obtain rfl := Except.ok.inj (hr.symm.trans hr')
    have hformed := wellFormed_couplingGraph
      (.ofClasses classes (methodGraph classes settings.includeExternal))
      (classNames classes).toList
    exact ⟨hformed.ends_lt e he, hformed.weight?_of_mem he⟩

/-! ## The classes of a report -/

/-- All parts of a report speak about the classes of a model. -/
structure SameClasses (classes : List ClassRecord) (r : AnalysisReport) : Prop where
  /-- The classes are the resolved names, each at its first occurrence. -/
  classes_eq : r.classes = (classes.map ClassRecord.resolvedName).eraseDups
  /-- They are the nodes of the coupling graph. -/
  couplingGraph_nodes : r.couplingGraph.nodes.toList = r.classes
  /-- The nodes of the class graph start with them. -/
  classGraph_nodes : r.classes <+: r.classGraph.nodes.toList
  /-- There is no dendrogram exactly if there are none. -/
  dendrogram_eq_none_iff : r.dendrogram = none ↔ r.classes = []
  /-- There is no partition exactly if there are none. -/
  partition_eq_none_iff : r.partition = none ↔ r.classes = []
  /-- A dendrogram has each of them once. -/
  dendrogram_members : ∀ root, r.dendrogram = some root → root.members.Perm r.classes
  /-- The modules have each of them once. -/
  modules_members : ∀ p, r.partition = some p → (p.modules.flatMap Module.members).Perm r.classes

/-- The nodes of the class graph start with the classes. -/
theorem prefix_nodes_classGraph (classes : List ClassRecord) (includeExternal : Bool) :
    (classNames classes).toList <+: (classGraph classes includeExternal).nodes.toList := by
  rw [nodes_classGraph]
  exact OrderedSet.prefix_foldl_insert _ _

/-- **All parts of a report speak about the same classes.**

**Proof sketch.** The coupling graph, the class graph and the clustering all start from the list
of names without repetitions. The edges of the coupling graph join such names, and those of the
class graph only add nodes behind them; a dendrogram has the items that were clustered as its
members, and splits of a dendrogram share out its members among the modules. -/
theorem sameClasses_of_analyze_eq_ok {r : AnalysisReport} (h : analyze classes settings = .ok r) :
    SameClasses classes r := by
  obtain ⟨hs, hc⟩ := validate_of_analyze_eq_ok h
  obtain ⟨partition, hpartition, hr⟩ := analyze_eq_ok settings hs hc
  obtain rfl := Except.ok.inj (h.symm.trans hr)
  set names := (classNames classes).toList with hnames
  set table := CouplingTable.ofClasses classes (methodGraph classes settings.includeExternal)
  have hdups : names.eraseDups = names := OrderedSet.eraseDups_toList _
  have htree : ∀ root, cluster names table.coupling settings.linkage = some root →
      root.MergeBuilt ∧ root.members.Perm names := by
    intro root hroot
    have hbuilt := (isGreedyTree_of_cluster_eq_some hroot).mergeBuilt
    rwa [hdups] at hbuilt
  obtain ⟨hsome, hnone⟩ := partitionOf_eq_ok hpartition
  refine ⟨?_, ?_, prefix_nodes_classGraph classes settings.includeExternal, cluster_eq_none_iff,
    ?_, fun root hroot => (htree root hroot).2, fun p hp => ?_⟩
  · exact OrderedSet.toList_ofList _
  · rw [nodes_couplingGraph, OrderedSet.ofList_toList]
  · rw [← @cluster_eq_none_iff _ names]
    refine ⟨fun hp => ?_, hnone⟩
    by_contra htree'
    obtain ⟨root, hroot⟩ := Option.ne_none_iff_exists'.1 htree'
    obtain ⟨p, hp', -⟩ := hsome root hroot
    cases hp.symm.trans hp'
  · cases hroot : cluster names table.coupling settings.linkage with
    | none => cases (hnone hroot).symm.trans hp
    | some root =>
      obtain ⟨p', hp', hidentify⟩ := hsome root hroot
      obtain rfl := Option.some.inj (hp.symm.trans hp')
      obtain ⟨hbuilt, hperm⟩ := htree root hroot
      exact (identify_members_perm hbuilt hidentify).trans hperm

/-- **What can come out of an analysis.** It is refused exactly if its settings are refused, or if
they are valid and its model is refused, and then for the same reason. The partition never
refuses, and no stage looks for something in vain. All parts of a report speak about the same
classes. -/
theorem analyze_outcome (classes : List ClassRecord) (settings : Settings) :
    (∀ e, analyze classes settings = .error e ↔ settings.validate = .error e ∨
      (settings.validate = .ok () ∧ validateClasses classes = .error e)) ∧
    (settings.validate = .ok () → ∀ root coupling,
      ∃ p, identify root coupling settings.cohesionThreshold = .ok (p : Partition String)) ∧
    FindsAll classes settings ∧
    ∀ r, analyze classes settings = .ok r → SameClasses classes r :=
  ⟨fun _ => analyze_eq_error_iff, exists_identify, findsAll classes settings,
    fun _ => sameClasses_of_analyze_eq_ok⟩

end ModuleRecovery
