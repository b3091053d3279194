import Mathlib.Data.List.DropRight
import Mathlib.Tactic.IntervalCases
import ModuleRecovery.Decimal.Layout

set_option relaxedAutoImplicit false
set_option autoImplicit false

/-!
# Digits of written numbers

The digits that a number is written with start with a digit other than zero: the shortest
decimal of a positive number is positive, and only zeros at the end are dropped.

## Main definitions

* `ModuleRecovery.StartsNonzero` — digits that start with another digit than zero.

## Main results

* `ModuleRecovery.startsNonzero_decimalDigits`, `ModuleRecovery.StartsNonzero.dropTrailingZeros`
  — the digits of a positive number, and what is left of them without the zeros at the end.
* `ModuleRecovery.digits_shortestDecimal` — the shortest decimal of a positive number.
* `ModuleRecovery.exists_ofFloat_eq_finite` — a finite number has a significand.
-/

namespace ModuleRecovery

open Float.Model Float.Model.UnpackedFloat

variable {digits zeros : List Char} {k : Nat}

/-- Decimal digits that start with another digit than zero. -/
def StartsNonzero (digits : List Char) : Prop :=
  (∃ c cs, digits = c :: cs ∧ c ≠ '0') ∧ ∀ d ∈ digits, d.isDigit = true

namespace StartsNonzero

theorem ne_nil (h : StartsNonzero digits) : digits ≠ [] := by
  obtain ⟨⟨c, cs, rfl, -⟩, -⟩ := h
  exact List.cons_ne_nil c cs

/-- More digits at the end change nothing. -/
theorem append (h : StartsNonzero digits) (hzeros : ∀ d ∈ zeros, d.isDigit = true) :
    StartsNonzero (digits ++ zeros) := by
  obtain ⟨⟨c, cs, rfl, hc⟩, hall⟩ := h
  exact ⟨⟨c, cs ++ zeros, rfl, hc⟩, List.forall_mem_append.2 ⟨hall, hzeros⟩⟩

/-- The first digits start like all of them. -/
theorem take (h : StartsNonzero digits) (hk : k ≠ 0) : StartsNonzero (digits.take k) := by
  obtain ⟨⟨c, cs, rfl, hc⟩, hall⟩ := h
  obtain ⟨k, rfl⟩ := Nat.exists_eq_succ_of_ne_zero hk
  exact ⟨⟨c, cs.take k, rfl, hc⟩, fun d hd => hall d (List.mem_of_mem_take hd)⟩

/-- Dropping the zeros at the end keeps the first digit. -/
theorem dropTrailingZeros (h : StartsNonzero digits) :
    StartsNonzero (dropTrailingZeros digits) := by
  obtain ⟨⟨c, cs, rfl, hc⟩, hall⟩ := h
  have hinitial : ModuleRecovery.dropTrailingZeros (c :: cs) <+: c :: cs :=
    List.rdropWhile_prefix _ _
  have hne : ModuleRecovery.dropTrailingZeros (c :: cs) ≠ [] := by
    intro hnil
    exact hc (of_decide_eq_true (List.rdropWhile_eq_nil_iff.1 hnil c (by simp)))
  obtain ⟨d, ds, heq⟩ := List.exists_cons_of_ne_nil hne
  rw [heq] at hinitial ⊢
  obtain rfl := (List.cons_prefix_cons.1 hinitial).1
  exact ⟨⟨d, ds, rfl, hc⟩, fun e he => hall e (hinitial.subset he)⟩

end StartsNonzero

theorem isDigit_of_mem_decimalDigits {n : Nat} : ∀ c ∈ decimalDigits n, c.isDigit = true :=
  fun _ hc => Nat.isDigit_of_mem_toDigits (by decide) (by decide) hc

/-- **The digits of a positive number start with another digit than zero.** -/
theorem startsNonzero_decimalDigits {n : Nat} (hn : n ≠ 0) : StartsNonzero (decimalDigits n) := by
  refine ⟨?_, isDigit_of_mem_decimalDigits⟩
  induction n using Nat.strongRecOn with
  | ind n ih =>
    rcases Nat.lt_or_ge n 10 with hlt | hge
    · refine ⟨n.digitChar, [], Nat.toDigits_of_lt_base hlt, ?_⟩
      interval_cases n
      · exact absurd rfl hn
      all_goals decide
    · obtain ⟨c, cs, heq, hc⟩ := ih (n / 10) (by omega) (by omega)
      refine ⟨c, cs ++ [(n % 10).digitChar], ?_, hc⟩
      have hsplit : decimalDigits n = decimalDigits (n / 10) ++ [(n % 10).digitChar] :=
        Nat.toDigits_of_base_le (by decide) hge
      rw [hsplit, heq]
      rfl

/-! ## The shortest decimal -/

/-- A decimal on a grid that reads back as a positive number is positive. -/
theorem digits_onGrid? {r : ReadBack} {tie : Tie} {t : Int} {d : Decimal} (hlow : 0 < r.low)
    (h : r.onGrid? tie t = some d) : d.digits ≠ 0 := by
  have hscale : 0 < r.low * (Nat.pow 10 (-t).toNat * Nat.pow 2 r.exponent.toNat) :=
    Nat.mul_pos hlow (Nat.mul_pos (Nat.pow_pos (by decide)) (Nat.pow_pos (by decide)))
  unfold ReadBack.onGrid? at h
  generalize Nat.pow 10 (-t).toNat * Nat.pow 2 r.exponent.toNat = scale at h hscale
  generalize Nat.pow 10 t.toNat * Nat.pow 2 (-r.exponent).toNat = unit at h
  simp only at h
  -- zero does not read back
  have hreads : ∀ n, (if r.closed = true then
      decide (r.low * scale ≤ n * unit) && decide (n * unit ≤ r.high * scale)
      else decide (r.low * scale < n * unit) && decide (n * unit < r.high * scale)) = true →
      n ≠ 0 := by
    rintro n hn rfl
    rw [Nat.zero_mul] at hn
    split at hn <;> simp only [Bool.and_eq_true, decide_eq_true_eq] at hn <;> omega
  split at h
  next => cases h
  next hbelow _ =>
    obtain rfl := Option.some.inj h
    exact hreads _ hbelow
  next =>
    obtain rfl := Option.some.inj h
    exact Nat.succ_ne_zero _
  next hbelow _ =>
    have hne := hreads _ hbelow
    split at h
    · obtain rfl := Option.some.inj h
      exact hne
    split at h
    · obtain rfl := Option.some.inj h
      exact Nat.succ_ne_zero _
    split at h
    · obtain rfl := Option.some.inj h
      exact Nat.succ_ne_zero _
    · obtain rfl := Option.some.inj h
      split
      · exact hne
      · exact Nat.succ_ne_zero _

/-- The search for a grid finds a positive decimal, or gives up. -/
theorem digits_firstGrid {r : ReadBack} (hlow : 0 < r.low) (tie : Tie) (t : Int) (tries : Nat) :
    (r.firstGrid tie t tries).digits ≠ 0 ∨ r.firstGrid tie t tries = ⟨0, 0⟩ := by
  induction tries generalizing t with
  | zero => exact .inr rfl
  | succ tries ih =>
    rw [ReadBack.firstGrid]
    split
    next d hd => exact .inl (digits_onGrid? hlow hd)
    next => exact ih (t - 1)

/-- **The shortest decimal of a positive number is positive**, unless it is the one that stands
for a search without a result. -/
theorem digits_shortestDecimal (tie : Tie) {significand : Nat} (h : significand ≠ 0)
    (exponent : Int) :
    (shortestDecimal tie significand exponent).digits ≠ 0 ∨
      shortestDecimal tie significand exponent = ⟨0, 0⟩ := by
  refine digits_firstGrid ?_ tie _ 18
  simp only [ReadBack.ofFinite]
  split <;> omega

/-! ## Finite numbers -/

/-- **A finite number has a significand.** The greatest exponent field is that of infinities and
of what is no number. -/
theorem exists_ofFloat_eq_finite {x : Float} (h : x.isFinite = true) :
    ∃ negative significand exponent,
      Binary64.ofFloat x = .finite negative significand exponent := by
  have hfield : x.toBits.toNat / Nat.pow 2 52 % Nat.pow 2 11 ≠ 2047 := by
    intro hfield
    have hexponent : unpackExponent (show BitVec Format.binary64.numBits from
        x.toBits.toBitVec) = -BitVec.ofNat Format.binary64.exponentBits 1 := by
      refine BitVec.eq_of_toNat_eq ?_
      show x.toBits.toNat >>> 52 % 2 ^ 11 = 2047
      rw [Nat.shiftRight_eq_div_pow]
      exact hfield
    change (UnpackedFloat.unpack Format.binary64 x.toBits.toBitVec).isFinite = true at h
    unfold UnpackedFloat.unpack at h
    dsimp only at h
    rw [if_pos hexponent] at h
    split at h <;> cases h
  unfold Binary64.ofFloat
  simp only [if_neg hfield]
  split
  · exact ⟨_, _, _, rfl⟩
  · exact ⟨_, _, _, rfl⟩

end ModuleRecovery
