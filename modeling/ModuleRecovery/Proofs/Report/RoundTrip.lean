import ModuleRecovery.Proofs.Report.Dendrogram

set_option relaxedAutoImplicit false
set_option autoImplicit false

/-!
# Reading written reports

The text of a report file is read back as the document that was written, but for its numbers:
each becomes what is read for its text. The reading fails when some number is found too great, or
when the dendrogram is nested too deep. So a report comes back unchanged exactly when it fits into
the depth of the reader and every number is read back as itself.

## Main definitions

* `ModuleRecovery.ReportDocument.mapNumbers?` — the same document with other numbers.
* `ModuleRecovery.ReportDocument.numbers` — the numbers of a document.
* `ModuleRecovery.ReportDocument.depth` — how many merges the longest path of the dendrogram holds.

## Main results

* `ModuleRecovery.Reads.reportDocument` — reading the text of a document.
* `ModuleRecovery.readReport_writeReport` — reading the text of a report file.
-/

namespace ModuleRecovery

open Json

variable {f : Float → Option Float}

/-! ## The numbers of a document -/

/-- The edge with the weight that `f` gives. -/
def WeightedEdge.mapWeight? (f : Float → Option Float) (e : WeightedEdge String) :
    Option (WeightedEdge String) :=
  (f e.weight).map fun weight => { e with weight }

/-- The coupling graph with the weights that `f` gives. -/
def CouplingDocument.mapWeights? (f : Float → Option Float) (g : CouplingDocument) :
    Option CouplingDocument :=
  (g.edges.mapM (WeightedEdge.mapWeight? f)).map fun edges => { g with edges }

/-- The module with the average that `f` gives. -/
def Module.mapAverage? (f : Float → Option Float) (m : Module String) : Option (Module String) :=
  (f m.averageCoupling).map fun averageCoupling => { m with averageCoupling }

/-- The partition with the averages that `f` gives. -/
def Partition.mapAverages? (f : Float → Option Float) (p : Partition String) :
    Option (Partition String) :=
  (p.modules.mapM (Module.mapAverage? f)).map fun modules => { p with modules }

namespace ReportDocument

/-- The document with the numbers that `f` gives, if it gives one for each. -/
def mapNumbers? (f : Float → Option Float) (d : ReportDocument) : Option ReportDocument :=
  (f d.cohesionThreshold).bind fun cohesionThreshold =>
    (d.couplingGraph.mapWeights? f).bind fun couplingGraph =>
      (d.dendrogram.mapM (Dendrogram.mapHeights? f)).bind fun dendrogram =>
        (d.modules.mapM (Partition.mapAverages? f)).map fun modules =>
          { d with cohesionThreshold, couplingGraph, dendrogram, modules }

/-- The numbers of a document: the threshold, the weights, the heights and the averages. -/
def numbers (d : ReportDocument) : List Float :=
  d.cohesionThreshold :: (d.couplingGraph.edges.map (·.weight) ++
    (d.dendrogram.elim [] Dendrogram.heights ++
      d.modules.elim [] fun p => p.modules.map (·.averageCoupling)))

/-- How many merges lie on the longest path of the dendrogram. -/
def depth (d : ReportDocument) : Nat :=
  d.dendrogram.elim 0 Dendrogram.depth

end ReportDocument

theorem WeightedEdge.mapWeight?_eq_some_self_iff {e : WeightedEdge String} :
    e.mapWeight? f = some e ↔ f e.weight = some e.weight := by
  have hinj : (fun weight => { e with weight }).Injective := fun _ _ h =>
    congrArg WeightedEdge.weight h
  exact (Option.map_injective hinj).eq_iff (b := some e.weight)

theorem CouplingDocument.mapWeights?_eq_some_self_iff {g : CouplingDocument} :
    g.mapWeights? f = some g ↔ ∀ x ∈ g.edges.map (·.weight), f x = some x := by
  have hinj : (fun edges => { g with edges }).Injective := fun _ _ h =>
    congrArg CouplingDocument.edges h
  rw [List.forall_mem_map]
  simp only [← WeightedEdge.mapWeight?_eq_some_self_iff, ← mapM_eq_some_self_iff]
  exact (Option.map_injective hinj).eq_iff (b := some g.edges)

theorem Module.mapAverage?_eq_some_self_iff {m : Module String} :
    m.mapAverage? f = some m ↔ f m.averageCoupling = some m.averageCoupling := by
  have hinj : (fun averageCoupling => { m with averageCoupling }).Injective := fun _ _ h =>
    congrArg Module.averageCoupling h
  exact (Option.map_injective hinj).eq_iff (b := some m.averageCoupling)

theorem Partition.mapAverages?_eq_some_self_iff {p : Partition String} :
    p.mapAverages? f = some p ↔ ∀ x ∈ p.modules.map (·.averageCoupling), f x = some x := by
  have hinj : (fun modules => ({ p with modules } : Partition String)).Injective := fun _ _ h =>
    congrArg Partition.modules h
  rw [List.forall_mem_map]
  simp only [← Module.mapAverage?_eq_some_self_iff, ← mapM_eq_some_self_iff]
  exact (Option.map_injective hinj).eq_iff (b := some p.modules)

/-- A part that may be missing stays as it is when there is none. -/
theorem optionMapM_eq_some_self_iff {α : Type} {g : α → Option α} {numbers : α → List Float}
    (hg : ∀ a, g a = some a ↔ ∀ x ∈ numbers a, f x = some x) (a? : Option α) :
    a?.mapM g = some a? ↔ ∀ x ∈ a?.elim [] numbers, f x = some x := by
  cases a? with
  | none => simp
  | some a =>
    rw [Option.elim_some, ← hg]
    exact (Option.map_injective (Option.some_injective α)).eq_iff (b := some a)

/-- **Nothing changes exactly when every number stays as it is.** -/
theorem ReportDocument.mapNumbers?_eq_some_self_iff {d : ReportDocument} :
    d.mapNumbers? f = some d ↔ ∀ x ∈ d.numbers, f x = some x := by
  have hdendrogram := @optionMapM_eq_some_self_iff f _ (Dendrogram.mapHeights? f) _
    (fun _ => Dendrogram.mapHeights?_eq_some_self_iff) d.dendrogram
  have hmodules := @optionMapM_eq_some_self_iff f _ (Partition.mapAverages? f) _
    (fun _ => Partition.mapAverages?_eq_some_self_iff) d.modules
  simp only [numbers, List.forall_mem_cons, List.forall_mem_append,
    ← CouplingDocument.mapWeights?_eq_some_self_iff, ← hdendrogram, ← hmodules, mapNumbers?,
    Option.bind_eq_some_iff, Option.map_eq_some_iff]
  constructor
  · rintro ⟨threshold, hthreshold, g, hg, t?, ht, p?, hp, heq⟩
    obtain ⟨-, -, rfl, -, -, rfl, rfl, rfl⟩ := (ReportDocument.mk.injEq ..).mp heq
    exact ⟨hthreshold, hg, ht, hp⟩
  · rintro ⟨hthreshold, hg, ht, hp⟩
    exact ⟨_, hthreshold, _, hg, _, ht, _, hp, rfl⟩

/-! ## Reading the parts of a document -/

namespace Reads

variable {room : Nat}

theorem texts (l : List String) (level : Nat) :
    Reads (readTexts (room + 1)) ((Json.ofStrings l).pretty level) (some l) :=
  listOf_some l fun s _ => string s (level + 1)

theorem node (n : NodeEntry) (level : Nat) :
    Reads (readNode (room + 1)) (n.toJson.pretty level) (some n) := by
  have hread : Reads (readTwo "id" (fun _ => readText) "external" (fun _ => readBool) (room + 1))
      _ _ :=
    two "id" "external" (by decide) (string n.id (level + 1)) (bool n.external (level + 1))
  exact hread.map fun p => (⟨p.1, p.2⟩ : NodeEntry)

theorem edge (e : String × String) (level : Nat) :
    Reads (readEdge (room + 1))
      ((Json.object [("from", .string e.1), ("to", .string e.2)]).pretty level) (some e) := by
  have hread : Reads (readEdge (room + 1)) _ _ :=
    two "from" "to" (by decide) (string e.1 (level + 1)) (string e.2 (level + 1))
  exact hread

/-- A call graph is read back. -/
theorem graph (g : GraphDocument) (level : Nat) :
    Reads (readGraph (room + 3)) (g.toJson.pretty level) (some g) := by
  have hnodes : Reads (readListOf readNode (room + 2)) _ _ :=
    listOf_some g.nodes fun n _ => node n (level + 1 + 1)
  have hedges : Reads (readListOf readEdge (room + 2)) _ _ :=
    listOf_some g.edges fun e _ => edge e (level + 1 + 1)
  have hread := two "nodes" "edges" (by decide) hnodes hedges
  exact hread.map fun p => (⟨p.1, p.2⟩ : GraphDocument)

theorem weightedEdge {e : WeightedEdge String} (hfinite : e.weight.isFinite = true) (level : Nat) :
    Reads (readWeightedEdge (room + 1)) (e.toJson.pretty level) (e.mapWeight? reread?) := by
  refine ReadsFields.record (.cons rfl rfl (string e.first _) fun a =>
    .cons rfl rfl (string e.second _) fun b => .cons rfl rfl (real hfinite _) fun w => .nil _) ?_
  rw [WeightedEdge.mapWeight?]
  cases reread? e.weight <;> rfl

/-- A coupling graph is read back up to its weights. -/
theorem coupling {g : CouplingDocument} (hfinite : ∀ e ∈ g.edges, e.weight.isFinite = true)
    (level : Nat) :
    Reads (readCoupling (room + 3)) (g.toJson.pretty level) (g.mapWeights? reread?) := by
  have hedges : Reads (readListOf readWeightedEdge (room + 2)) _ _ :=
    listOf g.edges fun e he => weightedEdge (hfinite e he) (level + 1 + 1)
  have hread := two "nodes" "edges" (by decide) (texts g.nodes (level + 1)) hedges
  have hgraph := hread.map fun p => (⟨p.1, p.2⟩ : CouplingDocument)
  rw [CouplingDocument.mapWeights?]
  cases hmap : g.edges.mapM (WeightedEdge.mapWeight? reread?) <;>
    rw [hmap] at hgraph <;> exact hgraph

theorem module {m : Module String} (hfinite : m.averageCoupling.isFinite = true) (level : Nat) :
    Reads (readModule (room + 2)) (m.toJson.pretty level) (m.mapAverage? reread?) := by
  have hread : Reads (readTwo "members" readTexts "average_coupling" (fun _ => readReal) (room + 2))
      _ _ :=
    two "members" "average_coupling" (by decide) (texts m.members (level + 1))
      (real hfinite (level + 1))
  have hmodule := hread.map fun p => (⟨p.1, p.2⟩ : Module String)
  rw [Module.mapAverage?]
  cases hmap : reread? m.averageCoupling <;> rw [hmap] at hmodule <;> exact hmodule

/-- A partition is read back up to its averages. -/
theorem partition {p : Partition String}
    (hfinite : ∀ m ∈ p.modules, m.averageCoupling.isFinite = true) (level : Nat) :
    Reads (readPartition (room + 4)) (p.toJson.pretty level) (p.mapAverages? reread?) := by
  have hmodules : Reads (readListOf readModule (room + 3)) _ _ :=
    listOf p.modules fun m hm => module (hfinite m hm) (level + 1 + 1)
  have hread : Reads (readTwo "feasible" (fun _ => readBool) "modules" (readListOf readModule)
      (room + 4)) _ _ :=
    two "feasible" "modules" (by decide) (bool p.feasible (level + 1)) hmodules
  have hpartition := hread.map fun q => (⟨q.2, q.1⟩ : Partition String)
  rw [Partition.mapAverages?]
  cases hmap : p.modules.mapM (Module.mapAverage? reread?) <;>
    rw [hmap] at hpartition <;> exact hpartition

/-- A dendrogram that may be missing. The document and the outermost node take one level each. -/
theorem optionalDendrogram {d : ReportDocument}
    (hfinite : ∀ x ∈ d.dendrogram.elim [] Dendrogram.heights, x.isFinite = true) (level : Nat) :
    Reads (readOptional (readTree 126))
      ((Json.ofOption Dendrogram.toJson d.dendrogram).pretty level)
      (if d.depth ≤ 125 then d.dendrogram.mapM (Dendrogram.mapHeights? reread?) else none) := by
  have hread := optional d.dendrogram
    (fun t ht => dendrogram (t := t) (by simpa [ht] using hfinite) (by decide : 125 ≤ jsonDepth)
      level)
    (fun t _ => by cases t <;> exact ⟨_, _, by rw [Dendrogram.toJson]⟩)
  convert hread using 1
  cases ht : d.dendrogram with
  | none =>
    have hdepth : d.depth ≤ 125 := by simp [ReportDocument.depth, ht]
    rw [if_pos hdepth]
    rfl
  | some t =>
    have hdepth : d.depth = t.depth := by simp [ReportDocument.depth, ht]
    rw [hdepth, Option.mapM_some, Option.mapM_some]
    split
    · rfl
    · rfl

/-- **A document is read back up to its numbers** if the reader has room for its dendrogram, and
refused if it has not. -/
theorem reportDocument {d : ReportDocument} (hfinite : ∀ x ∈ d.numbers, x.isFinite = true)
    (level : Nat) :
    Reads (readRecord ReportParts.fields {} ReportParts.complete? jsonDepth)
      (d.toJson.pretty level) (if d.depth ≤ 125 then d.mapNumbers? reread? else none) := by
  simp only [ReportDocument.numbers, List.forall_mem_cons, List.forall_mem_append,
    List.forall_mem_map] at hfinite
  obtain ⟨hthreshold, hweights, hheights, haverages⟩ := hfinite
  have hmodules : Reads (readOptional (readPartition 126))
      ((Json.ofOption Partition.toJson d.modules).pretty (level + 1))
      (d.modules.mapM (Partition.mapAverages? reread?)) :=
    optional d.modules
      (fun p hp => partition (by simpa [hp] using haverages) (level + 1))
      (fun p _ => ⟨_, _, rfl⟩)
  refine ReadsFields.record (.cons rfl rfl (texts d.classes _) fun _ =>
    .cons rfl rfl (string d.linkage _) fun _ => .cons rfl rfl (real hthreshold _) fun _ =>
    .cons rfl rfl (graph d.methodGraph _) fun _ => .cons rfl rfl (graph d.classGraph _) fun _ =>
    .cons rfl rfl (coupling hweights _) fun _ =>
    .cons rfl rfl (optionalDendrogram hheights _) fun _ =>
    .cons rfl rfl hmodules fun _ => .nil _) ?_
  unfold ReportDocument.mapNumbers?
  by_cases hdepth : d.depth ≤ 125
  · simp only [if_pos hdepth]
    cases reread? d.cohesionThreshold <;> cases d.couplingGraph.mapWeights? reread? <;>
      cases d.dendrogram.mapM (Dendrogram.mapHeights? reread?) <;>
      cases d.modules.mapM (Partition.mapAverages? reread?) <;> rfl
  · simp only [if_neg hdepth]
    cases reread? d.cohesionThreshold <;> cases d.couplingGraph.mapWeights? reread? <;> rfl

end Reads

/-! ## Reading a report file -/

/-- Reading a report file finds the document that was written, up to its numbers. -/
theorem readReport_writeReport_eq {r : AnalysisReport}
    (hfinite : ∀ x ∈ (ReportDocument.ofReport r).numbers, x.isFinite = true) :
    readReport (writeReport r) =
      if (ReportDocument.ofReport r).depth ≤ 125 then
        match (ReportDocument.ofReport r).mapNumbers? reread? with
        | some d => .ok d
        | none => .error .malformed
      else .error .malformed := by
  have htext : dropJsonBlanks (writeReport r).toList =
      (ReportDocument.ofReport r).toJson.pretty 0 ++ [] := by
    rw [writeReport, String.toList_ofList, List.append_nil]
    obtain ⟨c, s, hs, hc⟩ := exists_pretty_eq_cons 0 (ReportDocument.ofReport r).toJson
    rw [hs, dropJsonBlanks_cons hc.notBlank]
  have hread := Reads.reportDocument hfinite 0 _ [] endsNumber_nil htext
  unfold readReport
  show (readRecord ReportParts.fields {} ReportParts.complete? jsonDepth _ >>= _) = _
  rw [hread]
  split
  · cases (ReportDocument.ofReport r).mapNumbers? reread? <;> rfl
  · rfl

/-- The very document comes back exactly when it fits and every number is read back as itself. -/
theorem readReport_writeReport_eq_ok_iff {r : AnalysisReport}
    (hfinite : ∀ x ∈ (ReportDocument.ofReport r).numbers, x.isFinite = true) :
    readReport (writeReport r) = .ok (ReportDocument.ofReport r) ↔
      (ReportDocument.ofReport r).depth ≤ 125 ∧
        ∀ x ∈ (ReportDocument.ofReport r).numbers, reread? x = some x := by
  rw [readReport_writeReport_eq hfinite, ← ReportDocument.mapNumbers?_eq_some_self_iff]
  by_cases hdepth : (ReportDocument.ofReport r).depth ≤ 125
  · rw [if_pos hdepth]
    simp only [hdepth, true_and]
    cases (ReportDocument.ofReport r).mapNumbers? reread? with
    | none => simp
    | some d => simp
  · rw [if_neg hdepth]
    simp [hdepth]

/-- **Reading a report file.** The text that is written for a report with finite numbers is read
as the document of the report with each number replaced by what is read for its text, if no path of
the dendrogram has more than 125 merges; it is refused if one has, or if some number is found too
great. So the very document comes back exactly when no path has more merges and every number is
read back as itself. -/
theorem readReport_writeReport (r : AnalysisReport)
    (hfinite : ∀ x ∈ (ReportDocument.ofReport r).numbers, x.isFinite = true) :
    (readReport (writeReport r) =
      if (ReportDocument.ofReport r).depth ≤ 125 then
        match (ReportDocument.ofReport r).mapNumbers? reread? with
        | some d => .ok d
        | none => .error .malformed
      else .error .malformed) ∧
    (readReport (writeReport r) = .ok (ReportDocument.ofReport r) ↔
      (ReportDocument.ofReport r).depth ≤ 125 ∧
        ∀ x ∈ (ReportDocument.ofReport r).numbers, reread? x = some x) :=
  ⟨readReport_writeReport_eq hfinite, readReport_writeReport_eq_ok_iff hfinite⟩

/-- The report of two classes that call each other, as one module. -/
def twoClassReport : AnalysisReport where
  classes := ["shop.Cart", "shop.Item"]
  methodGraph := (∅ : Digraph String).addEdge "shop.Cart.total()" "shop.Item.price()"
  classGraph := (∅ : Digraph String).addEdge "shop.Cart" "shop.Item"
  couplingGraph := (∅ : WeightedGraph String).addEdge "shop.Cart" "shop.Item" 1
  dendrogram := some ((Dendrogram.leaf "shop.Cart").merge (.leaf "shop.Item") 0.5)
  partition := some ⟨[⟨["shop.Cart", "shop.Item"], 0.5⟩], true⟩
  linkage := .single
  cohesionThreshold := 0.05

/-- The report of two classes comes back as it was written. -/
theorem readReport_writeReport_twoClassReport :
    (∀ x ∈ (ReportDocument.ofReport twoClassReport).numbers, x.isFinite = true) ∧
      readReport (writeReport twoClassReport) = .ok (ReportDocument.ofReport twoClassReport) := by
  have hheights : ((Dendrogram.leaf "shop.Cart").merge (.leaf "shop.Item") 0.5).heights =
      [0.5] := by
    rw [Dendrogram.merge, Dendrogram.heights_internal, Dendrogram.heights_leaf,
      Dendrogram.heights_leaf]
    rfl
  have hnumbers : (ReportDocument.ofReport twoClassReport).numbers = [0.05, 1, 0.5, 0.5] := by
    show 0.05 :: ([1] ++ (((Dendrogram.leaf "shop.Cart").merge (.leaf "shop.Item") 0.5).heights ++
      [0.5])) = _
    rw [hheights]
    rfl
  have hfinite : ∀ x ∈ (ReportDocument.ofReport twoClassReport).numbers, x.isFinite = true := by
    rw [hnumbers]
    decide +kernel
  refine ⟨hfinite, (readReport_writeReport twoClassReport hfinite).2.2 ⟨by decide, ?_⟩⟩
  rw [hnumbers]
  decide +kernel

/-! ## Reports that do not come back -/

/-- A chain of merges, each of which joins one more item to all the items before it. -/
def mergeChain : Nat → Dendrogram String
  | 0 => .leaf "0"
  | n + 1 => (mergeChain n).merge (.leaf (toString (n + 1))) 1

theorem mergeBuilt_mergeChain (n : Nat) : (mergeChain n).MergeBuilt := by
  induction n with
  | zero => exact .leaf _
  | succ n ih => exact .merge 1 ih (.leaf _)

theorem depth_mergeChain (n : Nat) : (mergeChain n).depth = n := by
  induction n with
  | zero => rfl
  | succ n ih =>
    show max (mergeChain n).depth 0 + 1 = n + 1
    rw [ih, max_eq_left (Nat.zero_le n)]

theorem heights_mergeChain (n : Nat) : ∀ x ∈ (mergeChain n).heights, x = 1 := by
  induction n with
  | zero => simp [mergeChain, Dendrogram.heights_leaf]
  | succ n ih =>
    rw [mergeChain, Dendrogram.merge, Dendrogram.heights_internal, Dendrogram.heights_leaf,
      List.append_nil, List.forall_mem_cons]
    exact ⟨rfl, ih⟩

/-- The report of a dendrogram alone. -/
def dendrogramReport (dendrogram : Option (Dendrogram String)) (threshold : Float) :
    AnalysisReport where
  classes := dendrogram.elim [] Dendrogram.members
  methodGraph := ∅
  classGraph := ∅
  couplingGraph := ∅
  dendrogram := dendrogram
  partition := none
  linkage := .single
  cohesionThreshold := threshold

/-- A chain of 126 merges is refused, although its dendrogram is built by merges and its numbers
are finite. And a threshold of one eleventh comes back as another number. -/
theorem readReport_writeReport_ne :
    ((mergeChain 126).MergeBuilt ∧
      (∀ x ∈ (ReportDocument.ofReport (dendrogramReport (some (mergeChain 126)) 0.5)).numbers,
        x.isFinite = true) ∧
      readReport (writeReport (dendrogramReport (some (mergeChain 126)) 0.5)) =
        .error .malformed) ∧
    (∀ x ∈ (ReportDocument.ofReport (dendrogramReport none 0.09090909090909091)).numbers,
      x.isFinite = true) ∧
    readReport (writeReport (dendrogramReport none 0.09090909090909091)) ≠
      .ok (ReportDocument.ofReport (dendrogramReport none 0.09090909090909091)) := by
  have hchain : ∀ x ∈ (ReportDocument.ofReport
      (dendrogramReport (some (mergeChain 126)) 0.5)).numbers, x.isFinite = true := by
    show ∀ x ∈ 0.5 :: ([] ++ ((mergeChain 126).heights ++ [])), Float.isFinite x = true
    rw [List.nil_append, List.append_nil, List.forall_mem_cons]
    refine ⟨by decide, fun x hx => ?_⟩
    rw [heights_mergeChain 126 x hx]
    decide
  have hdepth : (ReportDocument.ofReport
      (dendrogramReport (some (mergeChain 126)) 0.5)).depth = 126 := depth_mergeChain 126
  have heleventh : ∀ x ∈ (ReportDocument.ofReport
      (dendrogramReport none 0.09090909090909091)).numbers, x.isFinite = true := by decide +kernel
  refine ⟨⟨mergeBuilt_mergeChain 126, hchain, ?_⟩, heleventh, ?_⟩
  · rw [readReport_writeReport_eq hchain, hdepth]
    rfl
  · rw [Ne, readReport_writeReport_eq_ok_iff heleventh, not_and]
    intro _
    decide +kernel

end ModuleRecovery
