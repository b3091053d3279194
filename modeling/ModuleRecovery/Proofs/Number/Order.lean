import Mathlib

set_option relaxedAutoImplicit false
set_option autoImplicit false

/-!
# The order of floating-point numbers

A finite floating-point number stands for one rational number, and the comparisons of the
format compare these rational numbers. So every fact about the order of similarities and
averages is a fact about rational numbers; the two zeros stand for the same one.

## Main definitions

* `ModuleRecovery.Number.value` — the rational number of a number taken apart.
* `ModuleRecovery.Number.exact` — the rational number a floating-point number stands for.
* `ModuleRecovery.Number.InFormat` — the numbers that have a binary64 encoding of their own.

## Main results

* `ModuleRecovery.Number.inFormat_unpack` — taking a word apart gives such a number.
* `ModuleRecovery.Number.lt_iff_exact_lt`, `ModuleRecovery.Number.le_iff_exact_le` — the
  order of finite numbers is the order of the rational numbers they stand for.
-/

namespace ModuleRecovery.Number

open Float.Model Float.Model.UnpackedFloat

/-- The rational number a finite number stands for; zero for the other numbers. -/
def value : UnpackedFloat → ℚ
  | .finite s m e _ => s.apply m * 2 ^ e
  | _ => 0

@[simp] theorem value_finite_positive {m : ℕ} {e : ℤ} {hm : 0 < m} :
    value (.finite .positive m e hm) = m * 2 ^ e := by
  simp [value, Sign.apply]

/-- A number of no negative value has a positive sign. -/
theorem sign_eq_positive {s : Sign} {m : ℕ} {e : ℤ} {hm : 0 < m}
    (h : 0 ≤ value (.finite s m e hm)) : s = .positive := by
  cases s with
  | positive => rfl
  | negative =>
    have : (0 : ℚ) < m * 2 ^ e := by positivity
    simp only [value, Sign.apply, Int.cast_neg, Int.cast_natCast] at h
    linarith

/-- The rational number a finite floating-point number stands for. -/
def exact (x : Float) : ℚ :=
  value x.toModel.unpack

/-- The mantissa has at most 53 digits, and fewer only at the least exponent. -/
def InFormat : UnpackedFloat → Prop
  | .finite _ m e _ => m < 2 ^ 53 ∧ -1074 ≤ e ∧ (2 ^ 52 ≤ m ∨ e = -1074)
  | _ => True

/-- Whatever word is taken apart, the mantissa and the exponent are in the format.

**Proof sketch.** By the exponent field. The greatest field belongs to infinities and to no
number, field zero to the numbers of exponent `-1074` and less than 53 digits, and any other
field to a mantissa whose leading digit is implicit. -/
theorem inFormat_unpack (b : BitVec Format.binary64.numBits) :
    InFormat (UnpackedFloat.unpack .binary64 b) := by
  have hm : (unpackMantissa b).toNat < 2 ^ 52 := (unpackMantissa b).isLt
  have hbias : Format.binary64.exponentBias = 1023 := by decide
  unfold UnpackedFloat.unpack
  simp only [hbias]
  split
  · split <;> trivial
  · split
    · rename_i h0
      split
      · trivial
      · exact ⟨by omega, by rw [h0]; decide, Or.inr (by rw [h0]; decide)⟩
    · rename_i h0
      have hfield : (unpackExponent b).toNat ≠ 0 := fun h => h0 (BitVec.eq_of_toNat_eq h)
      have hmant : (1#1 ++ unpackMantissa b : BitVec (1 + 52)).toNat =
          2 ^ 52 + (unpackMantissa b).toNat := by
        rw [BitVec.toNat_append, ← Nat.shiftLeft_add_eq_or_of_lt hm]
        rfl
      refine ⟨by rw [hmant]; omega, ?_, Or.inl (by rw [hmant]; omega)⟩
      push_cast
      omega

/-- A full mantissa at a greater exponent makes the greater number. -/
theorem mul_zpow_lt_of_exponent_lt {m n : ℕ} {d e : ℤ} (hm : m < 2 ^ 53) (hn : 2 ^ 52 ≤ n)
    (h : d < e) : (m : ℚ) * 2 ^ d < n * 2 ^ e := by
  have hn' : (2 : ℚ) ^ (52 : ℤ) ≤ n := by exact_mod_cast hn
  have hm' : (m : ℚ) < 2 ^ (53 : ℤ) := by exact_mod_cast hm
  calc (m : ℚ) * 2 ^ d < 2 ^ (53 : ℤ) * 2 ^ d := by gcongr
    _ = 2 ^ (53 + d) := (zpow_add₀ two_ne_zero _ _).symm
    _ ≤ 2 ^ (52 + e) := zpow_le_zpow_right₀ one_le_two (by omega)
    _ = 2 ^ (52 : ℤ) * 2 ^ e := zpow_add₀ two_ne_zero _ _
    _ ≤ n * 2 ^ e := by gcongr

/-- In the format, comparing exponents first and mantissas next compares the numbers. -/
theorem compare_exponent_then_mantissa {m n : ℕ} {d e : ℤ}
    (hm : m < 2 ^ 53 ∧ -1074 ≤ d ∧ (2 ^ 52 ≤ m ∨ d = -1074))
    (hn : n < 2 ^ 53 ∧ -1074 ≤ e ∧ (2 ^ 52 ≤ n ∨ e = -1074)) :
    (compare d e).then (compare m n) = compare ((m : ℚ) * 2 ^ d) (n * 2 ^ e) := by
  rcases lt_trichotomy d e with h | rfl | h
  · rw [compare_lt_iff_lt.2 h, compare_lt_iff_lt.2 (mul_zpow_lt_of_exponent_lt hm.1 (by omega) h)]
    rfl
  · rw [compare_eq_iff_eq.2 rfl]
    have hpos : (0 : ℚ) < 2 ^ d := by positivity
    rcases lt_trichotomy m n with h | rfl | h
    · rw [compare_lt_iff_lt.2 h, compare_lt_iff_lt.2 (by gcongr)]
      rfl
    · rw [compare_eq_iff_eq.2 rfl, compare_eq_iff_eq.2 rfl]
      rfl
    · rw [compare_gt_iff_gt.2 h, compare_gt_iff_gt.2 (by gcongr)]
      rfl
  · rw [compare_gt_iff_gt.2 h, compare_gt_iff_gt.2 (mul_zpow_lt_of_exponent_lt hn.1 (by omega) h)]
    rfl

/-- Changing both signs turns a comparison round. -/
theorem swap_compare_eq_compare_neg (p q : ℚ) : (compare p q).swap = compare (-p) (-q) := by
  rcases lt_trichotomy p q with h | rfl | h
  · rw [compare_lt_iff_lt.2 h, compare_gt_iff_gt.2 (by linarith), Ordering.swap_lt]
  · rw [compare_eq_iff_eq.2 rfl, compare_eq_iff_eq.2 rfl, Ordering.swap_eq]
  · rw [compare_gt_iff_gt.2 h, compare_lt_iff_lt.2 (by linarith), Ordering.swap_gt]

/-- Comparing two finite numbers of the format compares the rational numbers they stand for. -/
theorem compare_eq_compare_value {u v : UnpackedFloat} (hu : InFormat u) (hv : InFormat v)
    (fu : u.isFinite = true) (fv : v.isFinite = true) :
    u.compare v = some (compare (value u) (value v)) := by
  have hpos : ∀ (m : ℕ) (e : ℤ), 0 < m → (0 : ℚ) < m * 2 ^ e := fun m e hm => by positivity
  cases u with
  | notANumber => simp [UnpackedFloat.isFinite] at fu
  | infinity s => simp [UnpackedFloat.isFinite] at fu
  | zero s =>
    cases v with
    | notANumber => simp [UnpackedFloat.isFinite] at fv
    | infinity s => simp [UnpackedFloat.isFinite] at fv
    | zero t => simp [UnpackedFloat.compare, value]
    | finite t n e hn =>
      have hn' := hpos n e hn
      cases t <;>
        simp only [UnpackedFloat.compare, value, Sign.apply, Int.cast_neg, Int.cast_natCast]
      · rw [compare_gt_iff_gt.2 (by linarith)]
      · rw [compare_lt_iff_lt.2 hn']
  | finite s m d hm =>
    have hm' := hpos m d hm
    cases v with
    | notANumber => simp [UnpackedFloat.isFinite] at fv
    | infinity s => simp [UnpackedFloat.isFinite] at fv
    | zero t =>
      cases s <;>
        simp only [UnpackedFloat.compare, value, Sign.apply, Int.cast_neg, Int.cast_natCast]
      · rw [compare_lt_iff_lt.2 (by linarith)]
      · rw [compare_gt_iff_gt.2 hm']
    | finite t n e hn =>
      have hn' := hpos n e hn
      cases s <;> cases t <;>
        simp only [UnpackedFloat.compare, value, Sign.apply, Int.cast_neg, Int.cast_natCast,
          neg_mul]
      case negative.negative =>
        rw [compare_exponent_then_mantissa hu hv, swap_compare_eq_compare_neg]
      case negative.positive => rw [compare_lt_iff_lt.2 (by linarith)]
      case positive.negative => rw [compare_gt_iff_gt.2 (by linarith)]
      case positive.positive => rw [compare_exponent_then_mantissa hu hv]

/-- The strict order through the comparison of the format. -/
theorem lt_iff_compare {x y : Float} :
    x < y ↔ x.toModel.unpack.compare y.toModel.unpack = some .lt := by
  show decide (x.toModel.unpack.lt y.toModel.unpack = true) = true ↔ _
  rw [decide_eq_true_iff, UnpackedFloat.lt, beq_iff_eq]

/-- The order through the comparison of the format. -/
theorem le_iff_compare {x y : Float} :
    x ≤ y ↔ (x.toModel.unpack.compare y.toModel.unpack).any (·.isLE) = true := by
  show decide (x.toModel.unpack.le y.toModel.unpack = true) = true ↔ _
  rw [decide_eq_true_iff, UnpackedFloat.le]

/-- Two finite floating-point numbers are compared as the rational numbers they stand for. -/
theorem compare_eq_compare_exact {x y : Float} (hx : x.isFinite = true)
    (hy : y.isFinite = true) :
    x.toModel.unpack.compare y.toModel.unpack = some (compare (exact x) (exact y)) :=
  compare_eq_compare_value (inFormat_unpack _) (inFormat_unpack _) hx hy

/-- **The strict order of finite numbers** is that of the rational numbers they stand for. -/
theorem lt_iff_exact_lt {x y : Float} (hx : x.isFinite = true) (hy : y.isFinite = true) :
    x < y ↔ exact x < exact y := by
  rw [lt_iff_compare, compare_eq_compare_exact hx hy, Option.some_inj, compare_lt_iff_lt]

/-- **The order of finite numbers** is that of the rational numbers they stand for. -/
theorem le_iff_exact_le {x y : Float} (hx : x.isFinite = true) (hy : y.isFinite = true) :
    x ≤ y ↔ exact x ≤ exact y := by
  rw [le_iff_compare, compare_eq_compare_exact hx hy, Option.any_some, Ordering.isLE_iff_ne_gt,
    compare_gt_iff_gt]
  exact not_lt

end ModuleRecovery.Number
