import ModuleRecovery.Proofs.Collections.Lists
import ModuleRecovery.Proofs.Outcome

set_option relaxedAutoImplicit false
set_option autoImplicit false

/-!
# Nameless records

A record is nameless if it has neither a full name nor a simple one. The check of a model looks for
an empty resolved name instead, and this is not the same: the package and a dot make up a resolved
name that is not empty, and every nameless record of the package has it. So a nameless record with a
package passes the check, and two of them become one class if their packages are the same.

## Main definitions

* `ModuleRecovery.ClassRecord.IsNameless` — a record has neither a full name nor a simple one.
* `ModuleRecovery.refuseFirst` — refuse a model by the first record with some property.

## Main results

* `ModuleRecovery.ClassRecord.resolvedName_eq_empty_iff` — which records have an empty resolved
  name.
* `ModuleRecovery.validateClasses_eq_refuseFirst_isNameless_iff` — when the check refuses exactly
  what it would refuse if it looked for nameless records.
* `ModuleRecovery.validateClasses_nameless` — what the check does with nameless records.
* `ModuleRecovery.validateClasses_packageOnly` — two nameless records that become one class.
-/

namespace ModuleRecovery

variable {classes : List ClassRecord} {e : AnalysisError}

/-! ## Names of nameless records -/

namespace ClassRecord

variable {c d : ClassRecord}

/-- The record has neither a full name nor a simple one, whatever its package. -/
def IsNameless (c : ClassRecord) : Prop :=
  c.qualifiedName = "" ∧ c.simpleName = ""

instance : DecidablePred IsNameless := fun c =>
  inferInstanceAs (Decidable (c.qualifiedName = "" ∧ c.simpleName = ""))

/-- **A nameless record with a package is named by its package and a dot.** -/
theorem resolvedName_of_isNameless (h : c.IsNameless) (hpackage : c.packageName ≠ "") :
    c.resolvedName = c.packageName ++ "." := by
  rw [resolvedName, if_neg (not_not.2 h.1), if_pos hpackage, h.2, String.append_empty]

/-- **A resolved name is empty exactly if the record is nameless and has no package either.** -/
theorem resolvedName_eq_empty_iff : c.resolvedName = "" ↔ c.IsNameless ∧ c.packageName = "" := by
  unfold resolvedName IsNameless
  by_cases hqualified : c.qualifiedName = ""
  · by_cases hpackage : c.packageName = ""
    · simp [hqualified, hpackage]
    · simp [hqualified, hpackage]
  · simp [hqualified]

/-- Two nameless records have the same resolved name exactly if they have the same package. -/
theorem resolvedName_eq_iff_of_isNameless (hc : c.IsNameless) (hd : d.IsNameless) :
    c.resolvedName = d.resolvedName ↔ c.packageName = d.packageName := by
  have hempty : ∀ {c : ClassRecord}, c.IsNameless → (c.resolvedName = "" ↔ c.packageName = "") :=
    fun h => resolvedName_eq_empty_iff.trans (and_iff_right h)
  by_cases hcp : c.packageName = ""
  · rw [(hempty hc).2 hcp, hcp, eq_comm, hempty hd, eq_comm]
  · by_cases hdp : d.packageName = ""
    · rw [(hempty hd).2 hdp, hdp, hempty hc]
    · rw [resolvedName_of_isNameless hc hcp, resolvedName_of_isNameless hd hdp]
      exact String.append_left_inj "."

end ClassRecord

open ClassRecord

/-! ## The check of a model -/

/-- Refuse a list of class records by the first record with the given property, if there is one. -/
def refuseFirst (p : ClassRecord → Bool) (classes : List ClassRecord) :
    Except AnalysisError Unit :=
  match classes.findIdx? p with
  | some i => .error (.namelessClass i)
  | none => .ok ()

theorem refuseFirst_eq_error_iff {p : ClassRecord → Bool} :
    refuseFirst p classes = .error e ↔ ∃ i, classes.findIdx? p = some i ∧ e = .namelessClass i := by
  rw [refuseFirst]
  cases classes.findIdx? p with
  | none => simp
  | some i => simp [eq_comm]

theorem refuseFirst_eq_ok_iff {p : ClassRecord → Bool} :
    refuseFirst p classes = .ok () ↔ ∀ c ∈ classes, p c = false := by
  rw [← List.findIdx?_eq_none_iff, refuseFirst]
  cases classes.findIdx? p with
  | none => simp
  | some i => simp

/-- Two properties refuse a list alike exactly if they find their first record at the same place. -/
theorem refuseFirst_eq_iff {p q : ClassRecord → Bool} :
    refuseFirst p classes = refuseFirst q classes ↔ classes.findIdx? p = classes.findIdx? q := by
  unfold refuseFirst
  cases classes.findIdx? p <;> cases classes.findIdx? q <;> simp

/-- The check of a model refuses it by the first record that has neither a name nor a package. -/
theorem validateClasses_eq_refuseFirst (classes : List ClassRecord) :
    validateClasses classes = refuseFirst (fun c => c.IsNameless ∧ c.packageName = "") classes := by
  have hempty : (fun c : ClassRecord => decide (c.resolvedName = "")) =
      fun c => decide (c.IsNameless ∧ c.packageName = "") :=
    funext fun c => decide_eq_decide.2 resolvedName_eq_empty_iff
  rw [← hempty]
  rfl

/-- **A model passes the check exactly if every nameless record has a package.** -/
theorem validateClasses_eq_ok_iff :
    validateClasses classes = .ok () ↔ ∀ c ∈ classes, c.IsNameless → c.packageName ≠ "" := by
  rw [validateClasses_eq_refuseFirst, refuseFirst_eq_ok_iff]
  simp only [decide_eq_false_iff_not, not_and]

/-- **The check refuses what it would refuse if it looked for nameless records exactly if the first
of them has no package.** -/
theorem validateClasses_eq_refuseFirst_isNameless_iff :
    validateClasses classes = refuseFirst (·.IsNameless) classes ↔
      ∀ c, classes.find? (·.IsNameless) = some c → c.packageName = "" := by
  rw [validateClasses_eq_refuseFirst, refuseFirst_eq_iff, findIdx?_eq_findIdx?_iff fun c hc => ?_]
  · refine forall_congr' fun c => imp_congr_right fun hc => ?_
    have hnameless := List.find?_some hc
    rw [decide_eq_true_eq] at hnameless ⊢
    exact and_iff_right hnameless
  · rw [decide_eq_true_eq] at hc ⊢
    exact hc.1

/-- **What the check of a model does with nameless records.** It refuses a model exactly if some
record has neither a full name nor a simple one nor a package, and it names the first such record;
under valid settings, so does an analysis. It refuses exactly what it would refuse if it looked for
nameless records, whatever their packages, if and only if the first nameless record has no package.
For a nameless record with a package passes the check, and enters the analysis as a class that is
named by the package and a dot; two nameless records are one class exactly if they have the same
package.

**Proof sketch.** The check asks for an empty resolved name. The resolved name of a nameless record
is empty if it has no package, and otherwise ends in the dot behind the package. -/
theorem validateClasses_nameless (classes : List ClassRecord) :
    (∀ e, validateClasses classes = .error e ↔
      ∃ i, classes.findIdx? (fun c => c.IsNameless ∧ c.packageName = "") = some i ∧
        e = .namelessClass i) ∧
    (validateClasses classes = .ok () ↔ ∀ c ∈ classes, c.IsNameless → c.packageName ≠ "") ∧
    (∀ settings : Settings, settings.validate = .ok () → ∀ e,
      analyze classes settings = .error e ↔ validateClasses classes = .error e) ∧
    (validateClasses classes = refuseFirst (·.IsNameless) classes ↔
      ∀ c, classes.find? (·.IsNameless) = some c → c.packageName = "") ∧
    (∀ settings r, analyze classes settings = .ok r → ∀ c ∈ classes, c.IsNameless →
      c.packageName ++ "." ∈ r.classes) ∧
    (∀ c ∈ classes, ∀ d ∈ classes, c.IsNameless → d.IsNameless →
      (c.resolvedName = d.resolvedName ↔ c.packageName = d.packageName)) := by
  refine ⟨fun e => ?_, validateClasses_eq_ok_iff, fun settings hs e => ?_,
    validateClasses_eq_refuseFirst_isNameless_iff, fun settings r hr c hc hnameless => ?_,
    fun c _ d _ => resolvedName_eq_iff_of_isNameless⟩
  · rw [validateClasses_eq_refuseFirst, refuseFirst_eq_error_iff]
  · rw [analyze_eq_error_iff, hs]
    simp
  · obtain ⟨-, hvalid⟩ := validate_of_analyze_eq_ok hr
    have hpackage := validateClasses_eq_ok_iff.1 hvalid c hc hnameless
    rw [(sameClasses_of_analyze_eq_ok hr).classes_eq, ← OrderedSet.toList_ofList,
      OrderedSet.mem_toList_ofList, ← resolvedName_of_isNameless hnameless hpackage]
    exact List.mem_map_of_mem hc

/-- Two nameless records of one package pass the check, and are one class of the report. -/
theorem validateClasses_packageOnly :
    let classes : List ClassRecord :=
      [{ packageName := "p", methods := [.named "a"] },
        { packageName := "p", methods := [.named "b"] }]
    (∀ c ∈ classes, c.IsNameless) ∧
      refuseFirst (·.IsNameless) classes = .error (.namelessClass 0) ∧
      validateClasses classes = .ok () ∧
      ∃ r, analyze classes {} = .ok r ∧ r.classes = ["p."] := by
  intro classes
  have hvalid : validateClasses classes = .ok () := by rfl
  obtain ⟨partition, -, hr⟩ := analyze_eq_ok {} rfl hvalid
  exact ⟨by decide, by rfl, hvalid, _, hr, by rfl⟩

end ModuleRecovery
