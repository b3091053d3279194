import ModuleRecovery.Proofs.CallGraph.Denotation
import ModuleRecovery.Proofs.Coupling.Table
import ModuleRecovery.Proofs.Owner.MethodLabel

set_option relaxedAutoImplicit false
set_option autoImplicit false

/-!
# The edges that the metric counts

The owners of an edge are read from the labels at its ends. Where the names of a model are
plain, the label of a method tells the class that declares it, and nothing else is ever taken
for a method of some class. So the metric counts the edges between methods of the model, each
for the two classes that declare the methods.

## Main definitions

* `ModuleRecovery.PlainNames` — the names of a model cannot be misread.
* `ModuleRecovery.labelsOf` — the labels of the methods of a class.

## Main results

* `ModuleRecovery.PlainNames.resolveOwner?_eq_some_iff` — the owner of a node is the class that
  declares the method.
* `ModuleRecovery.edgesBetween_methodGraph` — what the metric counts.
-/

namespace ModuleRecovery

variable {classes : List ClassRecord} {policy : CollisionPolicy} {includeExternal : Bool}
  {label a b : String} {e : String × String}

/-- The names of a model cannot be misread in a label: the name of a class is neither empty nor
surrounded by blanks, has no separator of nested classes and no parenthesis in it, and does not
look like a node outside the model; the name of a method has no dot and no parenthesis in it. -/
structure PlainNames (classes : List ClassRecord) : Prop where
  /-- Every class has a name. -/
  ne_empty : ∀ c ∈ classes, c.resolvedName ≠ ""
  /-- No class is named with the separator of nested classes. -/
  dollar_notMem : ∀ c ∈ classes, '$' ∉ c.resolvedName.toList
  /-- No class has a parenthesis in its name. -/
  paren_notMem : ∀ c ∈ classes, '(' ∉ c.resolvedName.toList
  /-- No name of a class starts or ends with a blank. -/
  trim_eq : ∀ c ∈ classes, trim c.resolvedName.toList = c.resolvedName.toList
  /-- No class is named like a node outside the model. -/
  noExternalNames : NoExternalNames classes
  /-- No method has a dot in its name. -/
  dot_notMem_method : ∀ c ∈ classes, ∀ m ∈ c.methods, '.' ∉ m.name.toList
  /-- No method has a parenthesis in its name. -/
  paren_notMem_method : ∀ c ∈ classes, ∀ m ∈ c.methods, '(' ∉ m.name.toList

/-- The labels of the methods of the class named `a`, whichever records declare them. -/
def labelsOf (classes : List ClassRecord) (a : String) : List String :=
  ((classes.filter (·.resolvedName = a)).flatMap (·.methods)).map
    fun m => (MethodNode.ofMethod a m).label

theorem mem_labelsOf :
    label ∈ labelsOf classes a ↔
      ∃ c ∈ classes, c.resolvedName = a ∧
        ∃ m ∈ c.methods, (MethodNode.ofMethod a m).label = label := by
  simp only [labelsOf, List.mem_map, List.mem_flatMap, List.mem_filter, decide_eq_true_eq]
  constructor
  · rintro ⟨m, ⟨c, ⟨hc, hname⟩, hm⟩, hlabel⟩
    exact ⟨c, hc, hname, m, hm, hlabel⟩
  · rintro ⟨c, hc, hname, m, hm, hlabel⟩
    exact ⟨m, ⟨c, ⟨hc, hname⟩, hm⟩, hlabel⟩

/-- A label of a method is a label of a method of some class. -/
theorem mem_map_label_iff :
    label ∈ (methodNodes classes).map MethodNode.label ↔ ∃ a, label ∈ labelsOf classes a := by
  simp only [List.mem_map, mem_methodNodes, mem_labelsOf]
  constructor
  · rintro ⟨_, ⟨c, hc, m, hm, rfl⟩, rfl⟩
    exact ⟨c.resolvedName, c, hc, rfl, m, hm, rfl⟩
  · rintro ⟨_, c, hc, rfl, m, hm, rfl⟩
    exact ⟨_, ⟨c, hc, m, hm, rfl⟩, rfl⟩

/-! ## The ends of an edge -/

/-- An edge starts at a method of the model, and ends at one or at a node outside the model. -/
theorem MethodCall.ends {source target : String}
    (h : MethodCall classes includeExternal source target) :
    source ∈ (methodNodes classes).map MethodNode.label ∧
      (target ∈ (methodNodes classes).map MethodNode.label ∨ isExternal target = true) := by
  obtain ⟨c, hc, m, hm, d, -, hsource, htarget⟩ := h
  obtain ⟨n, hn, -, hlabel⟩ := exists_of_lastLabel?_eq_some hsource
  refine ⟨List.mem_map.2 ⟨n, hn, hlabel⟩, ?_⟩
  cases htarget with
  | project hkey hlabel =>
    obtain ⟨n, hn, -, hlabel⟩ := exists_of_lastLabel?_eq_some hlabel
    exact .inl (List.mem_map.2 ⟨n, hn, hlabel⟩)
  | external => exact .inr (isExternal_externalNode _)

namespace PlainNames

/-- **The owner of the label of a method is the class that declares it.** -/
theorem resolveOwner?_of_mem_labelsOf (h : PlainNames classes)
    (hlabel : label ∈ labelsOf classes a) :
    resolveOwner? (.ofClasses policy classes) label = some a := by
  obtain ⟨c, hc, rfl, m, hm, rfl⟩ := mem_labelsOf.1 hlabel
  have hmem : c.resolvedName ∈ classes.map ClassRecord.resolvedName := List.mem_map_of_mem hc
  have hne : trim c.resolvedName.toList ≠ [] := by
    rw [h.trim_eq c hc]
    exact fun hnil => h.ne_empty c hc (String.toList_eq_nil_iff.1 hnil)
  have hprint : (MethodNode.ofMethod c.resolvedName m).label = c.resolvedName ++ "." ++ m.name ++
      "(" ++ (String.intercalate "," m.parameterTypes ++ ")") := by
    simp only [MethodNode.ofMethod, MethodRecord.simpleSignature, String.append_assoc]
  have hread : ownerCandidate? (MethodNode.ofMethod c.resolvedName m).label =
      some c.resolvedName := by
    rw [hprint, ownerCandidate?_label _ hne (h.paren_notMem c hc) (h.dot_notMem_method c hc m hm)
      (h.paren_notMem_method c hc m hm), h.trim_eq c hc]
    exact congrArg some (dottedName_eq_self (h.dollar_notMem c hc))
  rw [resolveOwner?, hread, Option.bind_some, OwnerResolver.ofClasses_eq_ite (.inl hmem),
    if_pos hmem]

/-- **The owner of a node is the class that declares the method**, and a node outside the model
has no owner. -/
theorem resolveOwner?_eq_some_iff (h : PlainNames classes) (policy : CollisionPolicy)
    (hnode : label ∈ (methodNodes classes).map MethodNode.label ∨ isExternal label = true) :
    resolveOwner? (.ofClasses policy classes) label = some a ↔ label ∈ labelsOf classes a := by
  refine ⟨fun howner => ?_, h.resolveOwner?_of_mem_labelsOf⟩
  rcases hnode with hmethod | hext
  · obtain ⟨b, hb⟩ := mem_map_label_iff.1 hmethod
    rw [h.resolveOwner?_of_mem_labelsOf hb] at howner
    exact Option.some.inj howner ▸ hb
  · rw [resolveOwner?_of_isExternal h.noExternalNames hext] at howner
    cases howner

/-- The owners of an edge are the classes that declare the methods at its ends. -/
theorem ownersOfEdge?_eq_some_iff (h : PlainNames classes) (policy : CollisionPolicy)
    (he : e ∈ (methodGraph classes includeExternal).edges) :
    ownersOfEdge? (.ofClasses policy classes) e = some (a, b) ↔
      e.1 ∈ labelsOf classes a ∧ e.2 ∈ labelsOf classes b := by
  obtain ⟨hsource, htarget⟩ := (mem_edges_methodGraph.1 he).ends
  rw [ownersOfEdge?_eq_some, h.resolveOwner?_eq_some_iff policy (.inl hsource),
    h.resolveOwner?_eq_some_iff policy htarget]

end PlainNames

/-! ## What is counted -/

/-- **What the metric counts.** In a model of plain names, an edge of the call graph of methods
is resolved exactly if its target is a method of the model, and it is between two different
classes exactly if it leads from a method of one of them to a method of the other. It does not
matter whether nodes outside the model are shown, nor what a shared simple name means.

**Proof sketch.** Every edge starts at a method of the model. The owner of a node is the class
that declares the method, and there is none for a node outside the model. -/
theorem edgesBetween_methodGraph (h : PlainNames classes) (policy : CollisionPolicy)
    (includeExternal : Bool) :
    let g := methodGraph classes includeExternal
    let table := CouplingTable.ofGraph (.ofClasses policy classes) g
    table.resolvedEdges =
        g.edges.countP (fun e => e.2 ∈ (methodNodes classes).map MethodNode.label) ∧
      ∀ a b, a ≠ b → table.edgesBetween a b = g.edges.countP fun e =>
        e.1 ∈ labelsOf classes a ∧ e.2 ∈ labelsOf classes b ∨
          e.1 ∈ labelsOf classes b ∧ e.2 ∈ labelsOf classes a := by
  intro g table
  refine ⟨?_, fun a b hab => ?_⟩
  · show (CouplingTable.ofOwners (edgeOwners _ g)).resolvedEdges = _
    rw [CouplingTable.resolvedEdges_ofOwners, edgeOwners,
      List.length_filterMap_eq_countP]
    refine List.countP_congr fun e he => ?_
    rw [Option.isSome_iff_exists, decide_eq_true_eq, mem_map_label_iff]
    simp only [Prod.exists, h.ownersOfEdge?_eq_some_iff policy he]
    obtain ⟨c, hc⟩ := mem_map_label_iff.1 (mem_edges_methodGraph.1 he).ends.1
    constructor
    · rintro ⟨_, d, -, hd⟩
      exact ⟨d, hd⟩
    · rintro ⟨d, hd⟩
      exact ⟨c, d, hc, hd⟩
  · show (CouplingTable.ofOwners (edgeOwners _ g)).edgesBetween a b = _
    rw [CouplingTable.edgesBetween_ofOwners hab, edgeOwners,
      List.countP_filterMap]
    refine List.countP_congr fun e he => ?_
    rw [decide_eq_true_eq, ← h.ownersOfEdge?_eq_some_iff policy he,
      ← h.ownersOfEdge?_eq_some_iff policy he]
    cases howners : ownersOfEdge? (.ofClasses policy classes) e with
    | none => simp
    | some o => simp [isBetween, Prod.ext_iff]

/-- A cart that asks two classes of the same simple name for prices, and a printer outside the
model. -/
def taxedShopModel : List ClassRecord :=
  let priceOf (type : String) : CallRecord := { name := "of", signature := some (type ++ ".of()") }
  let print : CallRecord := { name := "print", signature := some "java.io.Out.print()" }
  let price (type : String) : ClassRecord :=
    (ClassRecord.ofQualifiedName type).withMethod { name := "of", key := some (type ++ ".of()") }
  [(ClassRecord.ofQualifiedName "shop.Cart").withMethod
      { name := "total", calls := [priceOf "shop.Price", priceOf "tax.Price", print] },
    price "shop.Price", price "tax.Price"]

set_option maxRecDepth 4000 in
/-- The two calls inside the model are counted, one for each class of prices, and the printer is
not, although it is shown. -/
theorem edgesBetween_taxedShopModel :
    PlainNames taxedShopModel ∧ "shop.Cart" ≠ "tax.Price" ∧
      let g := methodGraph taxedShopModel true
      let table := CouplingTable.ofGraph (.ofClasses .reject taxedShopModel) g
      g.edges.length = 3 ∧ table.resolvedEdges = 2 ∧
        table.edgesBetween "shop.Cart" "tax.Price" = 1 := by
  have hplain : PlainNames taxedShopModel :=
    ⟨by decide, by decide, by decide, by decide, by unfold NoExternalNames; decide, by decide,
      by decide⟩
  have hne : "shop.Cart" ≠ "tax.Price" := by decide
  obtain ⟨hresolved, hbetween⟩ := edgesBetween_methodGraph hplain .reject true
  refine ⟨hplain, hne, by decide +kernel, ?_, ?_⟩
  · rw [hresolved]
    decide +kernel
  · rw [hbetween _ _ hne]
    decide +kernel

end ModuleRecovery
