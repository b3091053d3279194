import Mathlib.Data.List.Infix
import Mathlib.Data.List.TakeWhile
import ModuleRecovery.Text.Blank
import ModuleRecovery.Text.Cut

set_option relaxedAutoImplicit false
set_option autoImplicit false

/-!
# Prefixes survive the reading of a text

A word at the beginning of a text is still there after blanks were dropped and the text was
cut, as long as the word has no blank and no separator in it.

## Main results

* `ModuleRecovery.prefix_trim` — a word without blanks survives trimming.
* `ModuleRecovery.prefix_cutFirst`, `ModuleRecovery.prefix_cutLast` — a word without the
  separator survives a cut.
-/

namespace ModuleRecovery

variable {w s t before after : List Char}

/-- A prefix that avoids the first character of a part ends before that part. -/
theorem prefix_of_prefix_append (h : w <+: s ++ t) (ht : ∀ c, t.head? = some c → c ∉ w) :
    w <+: s := by
  rcases List.prefix_or_prefix_of_prefix h (List.prefix_append s t) with hw | ⟨u, rfl⟩
  · exact hw
  · cases u with
    | nil => rw [List.append_nil]
    | cons c u =>
      have hhead : t.head? = some c := by
        obtain ⟨v, rfl⟩ := (List.prefix_append_right_inj s).1 h
        rfl
      exact absurd (List.mem_append_right s List.mem_cons_self) (ht c hhead)

/-! ## Blanks -/

/-- What is dropped at the end of a text is blank. -/
theorem exists_trimEnd_append (s : List Char) :
    ∃ t, s = trimEnd s ++ t ∧ ∀ c ∈ t, isBlank c = true := by
  refine ⟨(s.reverse.takeWhile isBlank).reverse, ?_, ?_⟩
  · rw [trimEnd, ← List.reverse_append, List.takeWhile_append_dropWhile, List.reverse_reverse]
  · intro c hc
    exact List.mem_takeWhile_imp (List.mem_reverse.1 hc)

theorem prefix_trimEnd (hw : w <+: s) (hblank : ∀ c ∈ w, isBlank c = false) :
    w <+: trimEnd s := by
  obtain ⟨t, hs, ht⟩ := exists_trimEnd_append s
  rw [hs] at hw
  refine prefix_of_prefix_append hw fun c hc hcw => ?_
  have h := ht c (List.mem_of_head? hc)
  rw [hblank c hcw] at h
  cases h

theorem prefix_trimStart (hw : w <+: s) (hblank : ∀ c ∈ w, isBlank c = false) :
    w <+: trimStart s := by
  cases w with
  | nil => exact List.nil_prefix
  | cons c w =>
    obtain ⟨t, rfl⟩ := hw
    have hc : ¬ isBlank c = true := by simp [hblank c List.mem_cons_self]
    rw [trimStart, List.cons_append, List.dropWhile_cons_of_neg hc]
    exact List.prefix_append (c :: w) t

/-- **A word without blanks at the beginning of a text survives trimming.** -/
theorem prefix_trim (hw : w <+: s) (hblank : ∀ c ∈ w, isBlank c = false) : w <+: trim s :=
  prefix_trimEnd (prefix_trimStart hw hblank) hblank

/-! ## Cuts -/

theorem prefix_cutFirst {sep : Char} (hcut : cutFirst sep s = some (before, after))
    (hw : w <+: s) (hsep : sep ∉ w) : w <+: before := by
  rw [(cutFirst_eq_some.1 hcut).1] at hw
  refine prefix_of_prefix_append hw fun c hc => ?_
  obtain rfl : sep = c := by simpa using hc
  exact hsep

theorem prefix_cutLast {sep : Char} (hcut : cutLast sep s = some (before, after))
    (hw : w <+: s) (hsep : sep ∉ w) : w <+: before := by
  rw [(cutLast_eq_some.1 hcut).1] at hw
  refine prefix_of_prefix_append hw fun c hc => ?_
  obtain rfl : sep = c := by simpa using hc
  exact hsep

end ModuleRecovery
