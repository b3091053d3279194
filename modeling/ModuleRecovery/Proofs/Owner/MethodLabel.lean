import ModuleRecovery.Analysis
import ModuleRecovery.Proofs.Owner.Candidate
import ModuleRecovery.Proofs.Owner.SimpleNames

set_option relaxedAutoImplicit false
set_option autoImplicit false

/-!
# Owners read back from method labels

The label of a method is printed from the name of its class and is read as a text later on.
Reading takes the printing back, but for two things: blanks around the name are dropped, and
the separators of nested classes become dots. So a class gets its methods back if it is named
with dots, and the methods of a class that is named with dollar signs go to the class of the
dotted name, if there is one.

## Main definitions

* `ModuleRecovery.dottedName` — a name with the separators of nested classes as dots.

## Main results

* `ModuleRecovery.OwnerResolver.ofClasses_eq_ite` — a name with a dot is resolved exactly.
* `ModuleRecovery.resolveOwner?_methodLabel` — the owner of the label of a method.
-/

namespace ModuleRecovery

/-- A name with the separators of nested classes written as dots. -/
def dottedName (name : String) : String :=
  String.ofList (name.toList.map dotted)

/-! ## Resolving the owner -/

variable {policy : CollisionPolicy} {classes : List ClassRecord}

/-- **A name with a dot, and the name of a class, is resolved to itself or not at all.** -/
theorem OwnerResolver.ofClasses_eq_ite {name : String}
    (h : name ∈ classes.map ClassRecord.resolvedName ∨ '.' ∈ name.toList) :
    OwnerResolver.ofClasses policy classes name =
      if name ∈ classes.map ClassRecord.resolvedName then some name else none := by
  rw [ofClasses_apply]
  split
  next => rfl
  next hname => exact simple_eq_none (h.resolve_left hname)

/-- In a valid model every class has a name. -/
theorem resolvedName_ne_empty (h : validateClasses classes = .ok ()) {c : ClassRecord}
    (hc : c ∈ classes) : c.resolvedName ≠ "" := by
  unfold validateClasses at h
  split at h
  · cases h
  next hnone => simpa using List.findIdx?_eq_none_iff.1 hnone c hc

/-- A dollar sign in a name is a dot in the dotted name. -/
theorem dot_mem_dottedName {name : String} (h : '$' ∈ name.toList) :
    '.' ∈ (dottedName name).toList := by
  rw [dottedName, String.toList_ofList]
  exact List.mem_map.2 ⟨'$', h, rfl⟩

/-- A name without dollar signs is its own dotted name. -/
theorem dottedName_eq_self {name : String} (h : '$' ∉ name.toList) : dottedName name = name := by
  have hid : name.toList.map dotted = name.toList.map id :=
    List.map_congr_left fun c hc => if_neg (by
      rintro rfl
      exact h hc)
  rw [dottedName, hid, List.map_id, String.ofList_toList]

/-! ## The owner of a method -/

/-- **The owner of the label of a method.** The label of a method leads to the class of the
dotted name of its own class, and to nothing if there is no class of that name. In particular it
leads back to a class that is named without dollar signs.

**Proof sketch.** Reading the label finds the dotted name. If it is the name of no class, the
name of the method's own class has a dollar sign in it, so the dotted name has a dot and is not
read as a simple name. -/
theorem resolveOwner?_methodLabel (hclasses : validateClasses classes = .ok ()) {c : ClassRecord}
    (hc : c ∈ classes) (hparen : '(' ∉ c.resolvedName.toList)
    (hblank : trim c.resolvedName.toList = c.resolvedName.toList) {m : MethodRecord}
    (hdot : '.' ∉ m.name.toList) (hparen' : '(' ∉ m.name.toList) (policy : CollisionPolicy) :
    resolveOwner? (.ofClasses policy classes) (MethodNode.ofMethod c.resolvedName m).label =
        (if dottedName c.resolvedName ∈ classes.map ClassRecord.resolvedName then
          some (dottedName c.resolvedName) else none) ∧
      ('$' ∉ c.resolvedName.toList →
        resolveOwner? (.ofClasses policy classes) (MethodNode.ofMethod c.resolvedName m).label =
          some c.resolvedName) := by
  have hmem : c.resolvedName ∈ classes.map ClassRecord.resolvedName := List.mem_map_of_mem hc
  have hne : trim c.resolvedName.toList ≠ [] := by
    rw [hblank]
    exact fun hnil => resolvedName_ne_empty hclasses hc (String.toList_eq_nil_iff.1 hnil)
  have hlabel : (MethodNode.ofMethod c.resolvedName m).label = c.resolvedName ++ "." ++ m.name ++
      "(" ++ (String.intercalate "," m.parameterTypes ++ ")") := by
    simp only [MethodNode.ofMethod, MethodRecord.simpleSignature, String.append_assoc]
  have hcandidate : ownerCandidate? (MethodNode.ofMethod c.resolvedName m).label =
      some (dottedName c.resolvedName) := by
    rw [hlabel, ownerCandidate?_label _ hne hparen hdot hparen', hblank, dottedName]
  have hresolve : resolveOwner? (.ofClasses policy classes)
      (MethodNode.ofMethod c.resolvedName m).label =
        if dottedName c.resolvedName ∈ classes.map ClassRecord.resolvedName then
          some (dottedName c.resolvedName) else none := by
    rw [resolveOwner?, hcandidate, Option.bind_some]
    refine OwnerResolver.ofClasses_eq_ite ?_
    by_cases hdollar : '$' ∈ c.resolvedName.toList
    · exact .inr (dot_mem_dottedName hdollar)
    · rw [dottedName_eq_self hdollar]
      exact .inl hmem
  refine ⟨hresolve, fun hdollar => ?_⟩
  rw [hresolve, dottedName_eq_self hdollar, if_pos hmem]

/-- A nested class that is named with a dollar sign, and its only method. -/
def nestedClass : ClassRecord :=
  { qualifiedName := "a.Outer$Inner", methods := [{ name := "run" }] }

/-- Beside the class of the dotted name, the method of the nested class is taken for one of the
other class. -/
theorem resolveOwner?_methodLabel_nested :
    let other : ClassRecord := { qualifiedName := "a.Outer.Inner" }
    validateClasses [nestedClass, other] = .ok () ∧ nestedClass ∈ [nestedClass, other] ∧
      '(' ∉ nestedClass.resolvedName.toList ∧
      trim nestedClass.resolvedName.toList = nestedClass.resolvedName.toList ∧
      '.' ∉ "run".toList ∧ '(' ∉ "run".toList ∧
      resolveOwner? (.ofClasses .lastRegistered [nestedClass, other])
        (MethodNode.ofMethod nestedClass.resolvedName { name := "run" }).label =
          some "a.Outer.Inner" := by
  intro other
  have hclasses : validateClasses [nestedClass, other] = .ok () := by rfl
  have hc : nestedClass ∈ [nestedClass, other] := List.mem_cons_self
  have hparen : '(' ∉ nestedClass.resolvedName.toList := by decide
  have hblank : trim nestedClass.resolvedName.toList = nestedClass.resolvedName.toList := by rfl
  have hdot : '.' ∉ "run".toList := by decide
  have hparen' : '(' ∉ "run".toList := by decide
  obtain ⟨hresolve, -⟩ := resolveOwner?_methodLabel hclasses hc hparen hblank
    (m := { name := "run" }) hdot hparen' .lastRegistered
  exact ⟨hclasses, hc, hparen, hblank, hdot, hparen', hresolve⟩

/-- Alone in its model, a nested class that is named with a dollar sign does not get its method
back. -/
theorem resolveOwner?_nestedClass_ne :
    validateClasses [nestedClass] = .ok () ∧ nestedClass ∈ [nestedClass] ∧
      '(' ∉ nestedClass.resolvedName.toList ∧
      trim nestedClass.resolvedName.toList = nestedClass.resolvedName.toList ∧
      ({ name := "run" } : MethodRecord) ∈ nestedClass.methods ∧
      '.' ∉ "run".toList ∧ '(' ∉ "run".toList ∧
      resolveOwner? (.ofClasses .lastRegistered [nestedClass])
        (MethodNode.ofMethod nestedClass.resolvedName { name := "run" }).label ≠
          some nestedClass.resolvedName := by
  refine ⟨by rfl, List.mem_cons_self, by decide, by rfl, List.mem_cons_self, by decide,
    by decide, ?_⟩
  have hnone : resolveOwner? (.ofClasses .lastRegistered [nestedClass])
      (MethodNode.ofMethod nestedClass.resolvedName { name := "run" }).label = none := by rfl
  rw [hnone]
  exact Option.some_ne_none _ |>.symm

end ModuleRecovery
