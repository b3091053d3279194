import Mathlib.Data.List.DropRight
import ModuleRecovery.Text.Blank

set_option relaxedAutoImplicit false
set_option autoImplicit false

/-!
# Trimming a text

Trimming works at the two ends of a text only. So what stands in front of a character that is
no blank, and what stands behind one, can be trimmed on its own.

## Main results

* `ModuleRecovery.trimStart_append` — trimming at the start stays within a part that is not
  all blank.
* `ModuleRecovery.trimEnd_append_cons` — trimming at the end stays behind a character that is
  no blank.
* `ModuleRecovery.trim_map` — trimming and a map that keeps the blanks apart commute.
* `ModuleRecovery.trim_eq_nil_iff` — when nothing is left.
* `ModuleRecovery.trim_trim` — trimming twice is trimming once.
-/

namespace ModuleRecovery

variable {s t : List Char} {c : Char}

/-- A part that is not all blank keeps trimming at the start away from what follows. -/
theorem trimStart_append (h : trimStart s ≠ []) : trimStart (s ++ t) = trimStart s ++ t := by
  rw [trimStart, List.dropWhile_append, if_neg]
  · rfl
  · rwa [List.isEmpty_iff]

/-- A character that is no blank keeps trimming at the end away from what is in front. -/
theorem trimEnd_append_cons (hc : isBlank c = false) :
    trimEnd (s ++ c :: t) = s ++ c :: trimEnd t := by
  have hrev : (s ++ c :: t).reverse = t.reverse ++ c :: s.reverse := by simp
  have hstop : (c :: s.reverse).dropWhile isBlank = c :: s.reverse :=
    List.dropWhile_cons_of_neg (by simp [hc])
  rw [trimEnd, trimEnd, hrev, List.dropWhile_append, hstop]
  split
  next hempty =>
    rw [List.isEmpty_iff.1 hempty]
    simp
  next => simp

/-- Dropping the blanks at the start first changes nothing. -/
theorem trim_trimStart (s : List Char) : trim (trimStart s) = trim s := by
  rw [trim, trim, trimStart, trimStart, List.dropWhile_idempotent]

theorem trimStart_ne_nil (h : trim s ≠ []) : trimStart s ≠ [] := by
  intro hnil
  rw [trim, hnil] at h
  exact h rfl

/-- Replacing characters commutes with trimming, if it neither makes nor removes blanks. -/
theorem trim_map {f : Char → Char} (hf : ∀ c, isBlank (f c) = isBlank c) (s : List Char) :
    trim (s.map f) = (trim s).map f := by
  have hcomp : isBlank ∘ f = isBlank := funext hf
  simp only [trim, trimStart, trimEnd, List.dropWhile_map, hcomp, ← List.map_reverse]

/-- What is left at the start of a text is no blank. -/
theorem isBlank_of_head?_trimStart (h : (trimStart s).head? = some c) : isBlank c = false := by
  have hnot := List.head?_dropWhile_not isBlank s
  rw [trimStart] at h
  rw [h] at hnot
  exact hnot

/-- Nothing is left of a text exactly if it is all blank. -/
theorem trim_eq_nil_iff : trim s = [] ↔ ∀ c ∈ s, isBlank c = true := by
  have hend : trim s = [] ↔ ∀ c ∈ trimStart s, isBlank c = true := List.rdropWhile_eq_nil_iff
  rw [hend, trimStart, ← List.dropWhile_eq_nil_iff, List.dropWhile_idempotent,
    List.dropWhile_eq_nil_iff]

/-- Trimming leaves no blank at the start. -/
theorem trimStart_trim (s : List Char) : trimStart (trim s) = trim s := by
  have hprefix : trim s <+: trimStart s := List.rdropWhile_prefix isBlank (trimStart s)
  cases htrim : trim s with
  | nil => rfl
  | cons c t =>
    rw [htrim] at hprefix
    have hhead : (trimStart s).head? = some c := by
      obtain ⟨u, hu⟩ := hprefix
      rw [← hu]
      rfl
    exact List.dropWhile_cons_of_neg (by simp [isBlank_of_head?_trimStart hhead])

/-- Trimming a trimmed text changes nothing. -/
theorem trim_trim (s : List Char) : trim (trim s) = trim s := by
  rw [trim, trimStart_trim]
  exact List.rdropWhile_idempotent isBlank (trimStart s)

end ModuleRecovery
