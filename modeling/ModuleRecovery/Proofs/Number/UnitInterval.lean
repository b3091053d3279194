import ModuleRecovery.Clustering.Linkage
import ModuleRecovery.Proofs.Number.Rounding

set_option relaxedAutoImplicit false
set_option autoImplicit false

/-!
# Numbers between zero and one

Similarities, averages and heights lie between zero and one. On these numbers the order is
the order of the rational numbers they stand for, and taking a number from one turns the
order round: the difference is rounded, but rounding is monotone.

## Main definitions

* `ModuleRecovery.Number.InUnit` — the finite numbers between zero and one.

## Main results

* `ModuleRecovery.Number.inUnit_of_le` — being in range rules out infinities.
* `ModuleRecovery.Number.inUnit_clampUnit`, `ModuleRecovery.Number.clampUnit_of_inUnit` —
  clamping leads into the interval and changes nothing there.
* `ModuleRecovery.Number.one_sub_antitone`, `ModuleRecovery.Number.one_sub_congr` — the
  difference from one reverses the order, and forgets the sign of zero.
-/

namespace ModuleRecovery.Number

open Float.Model Float.Model.UnpackedFloat

/-- A finite number between zero and one. -/
structure InUnit (x : Float) : Prop where
  /-- The number is finite. -/
  finite : x.isFinite = true
  /-- The number is not negative. -/
  nonneg : 0 ≤ exact x
  /-- The number does not exceed one. -/
  le_one : exact x ≤ 1

theorem unpack_zero : (0 : Float).toModel.unpack = .zero .positive := rfl

theorem unpack_one :
    (1 : Float).toModel.unpack = .finite .positive (2 ^ 52) (-52) (by decide) := rfl

@[simp] theorem exact_zero : exact 0 = 0 := rfl

@[simp] theorem exact_one : exact 1 = 1 := by
  rw [exact, unpack_one]
  norm_num [value, Sign.apply]

theorem inUnit_zero : InUnit 0 := ⟨rfl, le_rfl, zero_le_one⟩

theorem inUnit_one : InUnit 1 := ⟨rfl, by simp, by simp⟩

variable {x y : Float}

theorem InUnit.lt_iff (hx : InUnit x) (hy : InUnit y) : x < y ↔ exact x < exact y :=
  lt_iff_exact_lt hx.finite hy.finite

theorem InUnit.le_iff (hx : InUnit x) (hy : InUnit y) : x ≤ y ↔ exact x ≤ exact y :=
  le_iff_exact_le hx.finite hy.finite

theorem InUnit.isNaN_eq_false (hx : InUnit x) : x.isNaN = false := by
  have hf : x.toModel.unpack.isFinite = true := hx.finite
  show x.toModel.unpack.isNaN = false
  cases hu : x.toModel.unpack <;> simp [hu, UnpackedFloat.isFinite, UnpackedFloat.isNaN] at hf ⊢

/-- The numbers in the range are those that compare as such. -/
theorem InUnit.zero_le_and_le_one (hx : InUnit x) : 0 ≤ x ∧ x ≤ 1 := by
  rw [inUnit_zero.le_iff hx, hx.le_iff inUnit_one, exact_zero, exact_one]
  exact ⟨hx.nonneg, hx.le_one⟩

/-- A number in the range is finite: an infinity or no number is never in the range. -/
theorem inUnit_of_le (h0 : 0 ≤ x) (h1 : x ≤ 1) : InUnit x := by
  have hf : x.isFinite = true := by
    rw [le_iff_compare, unpack_zero] at h0
    rw [le_iff_compare, unpack_one] at h1
    show x.toModel.unpack.isFinite = true
    cases hx : x.toModel.unpack with
    | notANumber => simp [hx, UnpackedFloat.compare] at h0
    | infinity s => cases s <;> simp [hx, UnpackedFloat.compare] at h0 h1
    | zero s => rfl
    | finite s m e h => rfl
  refine ⟨hf, ?_, ?_⟩
  · simpa using (le_iff_exact_le rfl hf).1 h0
  · simpa using (le_iff_exact_le hf rfl).1 h1

/-! ## Clamping -/

/-- Every clamped number lies between zero and one. -/
theorem inUnit_clampUnit (x : Float) : InUnit (clampUnit x) := by
  unfold clampUnit
  split_ifs with hn h0 h1
  · exact inUnit_zero
  · exact inUnit_zero
  · exact inUnit_one
  · have hf : x.isFinite = true := by
      rw [lt_iff_compare, unpack_zero] at h0
      rw [lt_iff_compare, unpack_one] at h1
      change ¬ x.toModel.unpack.isNaN = true at hn
      show x.toModel.unpack.isFinite = true
      cases hx : x.toModel.unpack with
      | notANumber => simp [hx, UnpackedFloat.isNaN] at hn
      | infinity s => cases s <;> simp [hx, UnpackedFloat.compare] at h0 h1
      | zero s => rfl
      | finite s m e h => rfl
    rw [lt_iff_exact_lt hf rfl, exact_zero, not_lt] at h0
    rw [lt_iff_exact_lt rfl hf, exact_one, not_lt] at h1
    exact ⟨hf, h0, h1⟩

/-- Clamping changes no number between zero and one. -/
theorem clampUnit_of_inUnit (hx : InUnit x) : clampUnit x = x := by
  have hn : ¬ x.isNaN = true := by rw [hx.isNaN_eq_false]; exact Bool.false_ne_true
  have h0 : ¬ x < 0 := by
    rw [hx.lt_iff inUnit_zero, exact_zero]
    exact not_lt.2 hx.nonneg
  have h1 : ¬ 1 < x := by
    rw [inUnit_one.lt_iff hx, exact_one]
    exact not_lt.2 hx.le_one
  rw [clampUnit, if_neg hn, if_neg h0, if_neg h1]

/-! ## Infinities -/

theorem negativeInfinity_lt (hx : InUnit x) : negativeInfinity < x := by
  have hf : x.toModel.unpack.isFinite = true := hx.finite
  have hu : negativeInfinity.toModel.unpack = .infinity .negative := rfl
  rw [lt_iff_compare, hu]
  cases hx : x.toModel.unpack <;> simp [hx, UnpackedFloat.isFinite, UnpackedFloat.compare] at hf ⊢

theorem lt_positiveInfinity (hx : InUnit x) : x < positiveInfinity := by
  have hf : x.toModel.unpack.isFinite = true := hx.finite
  have hu : positiveInfinity.toModel.unpack = .infinity .positive := rfl
  rw [lt_iff_compare, hu]
  cases hx : x.toModel.unpack <;> simp [hx, UnpackedFloat.isFinite, UnpackedFloat.compare] at hf ⊢

/-! ## The difference from one -/

/-- What rounding makes of a number up to one is a number up to one, and is encoded as such. -/
theorem normalize_inUnit {m : ℕ} {e : ℤ} (h : (m : ℚ) * 2 ^ e ≤ 1) :
    InUnit (.ofModel (.pack (normalize .binary64 m e .positive))) ∧
      exact (.ofModel (.pack (normalize .binary64 m e .positive))) =
        value (normalize .binary64 m e .positive) := by
  obtain ⟨hf, hform⟩ := normalize_natCast_finite m e
  have h0 : 0 ≤ value (normalize .binary64 m e .positive) :=
    normalize_mono (m := 0) (d := 0) (by simp only [Nat.cast_zero, zero_mul]; positivity)
  have h1 : value (normalize .binary64 m e .positive) ≤ 1 := by
    have hle := normalize_mono (n := 1) (e := 0) (by simpa using h)
    rwa [value_normalize_one] at hle
  have hu : (Float.ofModel (.pack (normalize .binary64 m e .positive))).toModel.unpack =
      normalize .binary64 m e .positive :=
    unpack_pack_of_value_le hform h0 (k := 0) (by decide) (by simpa using h1)
  have hx : exact (.ofModel (.pack (normalize .binary64 m e .positive))) =
      value (normalize .binary64 m e .positive) := congrArg value hu
  refine ⟨⟨?_, by rw [hx]; exact h0, by rw [hx]; exact h1⟩, hx⟩
  show UnpackedFloat.isFinite (Float.Model.unpack _) = true
  rw [hu]
  exact hf

/-- Moving the digits of a mantissa up to a smaller exponent keeps the number. -/
theorem decreaseExponent_mul {m : ℕ} {e d : ℤ} (h : d ≤ e) :
    ((decreaseExponent m e d).1 : ℚ) * 2 ^ d = m * 2 ^ e := by
  have hpow : (2 : ℚ) ^ (e - d).toNat * 2 ^ d = 2 ^ e := by
    rw [← zpow_natCast, ← zpow_add₀ two_ne_zero]
    congr 1
    omega
  simp only [decreaseExponent, Nat.shiftLeft_eq]
  push_cast
  rw [mul_assoc, hpow]

/-- The difference from one is the exact difference, rounded.

**Proof sketch.** One and the number are brought to the smaller of their two exponents, where
the mantissas are subtracted exactly. -/
theorem one_sub_eq_normalize (hx : InUnit x) : ∃ (m : ℕ) (e : ℤ),
    (m : ℚ) * 2 ^ e = 1 - exact x ∧
      1 - x = .ofModel (.pack (normalize .binary64 m e .positive)) := by
  obtain ⟨hf, h0, h1⟩ := hx
  have hsub : 1 - x = .ofModel (.pack
      (UnpackedFloat.sub .binary64 (1 : Float).toModel.unpack x.toModel.unpack)) := rfl
  rw [hsub, unpack_one]
  unfold exact at *
  change x.toModel.unpack.isFinite = true at hf
  cases hu : x.toModel.unpack with
  | notANumber => simp [hu, UnpackedFloat.isFinite] at hf
  | infinity s => simp [hu, UnpackedFloat.isFinite] at hf
  | zero s => exact ⟨2 ^ 52, -52, by norm_num [value], rfl⟩
  | finite s m e hm =>
    rw [hu] at h0 h1
    obtain rfl := sign_eq_positive h0
    rw [value_finite_positive] at h1 ⊢
    set a := (decreaseExponent (2 ^ 52) (-52) (min (-52) e)).1
    set b := (decreaseExponent m e (min (-52) e)).1
    have hval : ((a : ℚ) - b) * 2 ^ min (-52) e = 1 - m * 2 ^ e := by
      rw [sub_mul, decreaseExponent_mul (min_le_left (-52) e),
        decreaseExponent_mul (min_le_right (-52) e)]
      norm_num
    have hle : b ≤ a := by
      have : (0 : ℚ) ≤ a - b := by
        refine nonneg_of_mul_nonneg_left ?_ (by positivity : (0 : ℚ) < 2 ^ min (-52) e)
        rw [hval]
        linarith
      exact_mod_cast sub_nonneg.1 this
    refine ⟨a - b, min (-52) e, ?_, ?_⟩
    · rw [Nat.cast_sub hle, hval]
    · rw [Nat.cast_sub hle]
      rfl

/-- The difference from one lies between zero and one. -/
theorem inUnit_one_sub (hx : InUnit x) : InUnit (1 - x) := by
  obtain ⟨m, e, hm, heq⟩ := one_sub_eq_normalize hx
  rw [heq]
  exact (normalize_inUnit (by rw [hm]; linarith [hx.nonneg])).1

/-- **The difference from one reverses the order.** -/
theorem one_sub_antitone (hx : InUnit x) (hy : InUnit y) (h : exact x ≤ exact y) :
    exact (1 - y) ≤ exact (1 - x) := by
  obtain ⟨m, d, hm, hxeq⟩ := one_sub_eq_normalize hx
  obtain ⟨n, e, hn, hyeq⟩ := one_sub_eq_normalize hy
  rw [hxeq, hyeq, (normalize_inUnit (by rw [hn]; linarith [hy.nonneg])).2,
    (normalize_inUnit (by rw [hm]; linarith [hx.nonneg])).2]
  exact normalize_mono (by rw [hm, hn]; linarith)

/-- The two zeros apart, a number of the format is the only one with its value. -/
theorem eq_of_compare_eq {u v : UnpackedFloat} (h : u.compare v = some .eq) :
    u = v ∨ ∃ s t, u = .zero s ∧ v = .zero t := by
  cases u with
  | notANumber => simp [UnpackedFloat.compare] at h
  | infinity s =>
    cases v with
    | infinity t =>
      cases s <;> cases t
      case negative.negative => exact Or.inl rfl
      case positive.positive => exact Or.inl rfl
      all_goals cases h
    | _ => cases s <;> simp [UnpackedFloat.compare] at h
  | zero s =>
    cases v with
    | zero t => exact Or.inr ⟨s, t, rfl, rfl⟩
    | notANumber => simp [UnpackedFloat.compare] at h
    | infinity t => cases t <;> simp [UnpackedFloat.compare] at h
    | finite t n e hn => cases t <;> simp [UnpackedFloat.compare] at h
  | finite s m d hm =>
    cases v with
    | notANumber => simp [UnpackedFloat.compare] at h
    | infinity t => cases s <;> cases t <;> simp [UnpackedFloat.compare] at h
    | zero t => cases s <;> simp [UnpackedFloat.compare] at h
    | finite t n e hn =>
      cases s <;> cases t <;>
        simp [UnpackedFloat.compare, Ordering.then_eq_eq] at h
      all_goals
        obtain ⟨rfl, rfl⟩ := h
        exact Or.inl rfl

/-- Numbers of the same value have the same difference from one. -/
theorem one_sub_congr (hx : InUnit x) (hy : InUnit y) (h : exact x = exact y) :
    1 - x = 1 - y := by
  have hcmp := compare_eq_compare_exact hx.finite hy.finite
  rw [compare_eq_iff_eq.2 h] at hcmp
  have hsub : ∀ z : Float, 1 - z = .ofModel (.pack
      (UnpackedFloat.sub .binary64 (1 : Float).toModel.unpack z.toModel.unpack)) := fun _ => rfl
  rw [hsub, hsub, unpack_one]
  rcases eq_of_compare_eq hcmp with heq | ⟨s, t, hs, ht⟩
  · rw [heq]
  · rw [hs, ht]
    rfl

end ModuleRecovery.Number
