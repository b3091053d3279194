import ModuleRecovery.Proofs.Number.Counts
import ModuleRecovery.Proofs.Number.UnitInterval

set_option relaxedAutoImplicit false
set_option autoImplicit false

/-!
# Sums and quotients without a sign

An average is a sum of numbers between zero and one, divided by a count. The sum never grows
beyond `2 ^ 53`, where the next number is rounded away, so it is finite; and a finite number
without a sign, divided by a positive count, is a number without a sign. In particular an
average can always be compared with a threshold.

## Main definitions

* `ModuleRecovery.Number.IsNonneg` — a number without a sign, or the positive infinity.
* `ModuleRecovery.Number.IsSum` — a number that a sum of numbers up to one can reach.
* `ModuleRecovery.Number.rank` — the place of a number among those that comparisons put in line.

## Main results

* `ModuleRecovery.Number.isNonneg_div` — the quotient of two such numbers.
* `ModuleRecovery.Number.IsSum.add` — adding a number up to one stays in reach.
* `ModuleRecovery.Number.lt_iff_rank_lt`, `ModuleRecovery.Number.le_iff_rank_le` — such numbers
  and all finite ones are compared by their places in one line.
* `ModuleRecovery.Number.lt_iff_not_le` — one of two such numbers is below the other exactly if it
  does not reach it.
* `ModuleRecovery.Number.zero_lt_add` — a sum of positive numbers is positive.
* `ModuleRecovery.Number.zero_lt_iff` — what is not positive.
* `ModuleRecovery.Number.clampUnit_eq_zero` — such a number is clamped to zero unless it is
  positive.
-/

namespace ModuleRecovery.Number

open Float.Model Float.Model.UnpackedFloat

/-- A number without a sign, or the positive infinity. -/
def IsNonneg (u : UnpackedFloat) : Prop :=
  u = .zero .positive ∨ IsPositive u

variable {u v : UnpackedFloat} {x y : Float}

theorem isNonneg_zero : IsNonneg (.zero .positive) :=
  .inl rfl

theorem isNonneg_finite {m : ℕ} {e : ℤ} {hm : 0 < m} : IsNonneg (.finite .positive m e hm) :=
  .inr trivial

theorem IsNonneg.eq_infinity (hu : IsNonneg u) (hf : ¬ u.isFinite = true) :
    u = .infinity .positive := by
  rcases hu with rfl | hu
  · exact absurd rfl hf
  · rcases isPositive_iff.1 hu with rfl | ⟨m, e, hm, rfl⟩
    · rfl
    · exact absurd rfl hf

theorem IsNonneg.value_nonneg (hu : IsNonneg u) : 0 ≤ value u := by
  rcases hu with rfl | hu
  · exact le_rfl
  · rcases isPositive_iff.1 hu with rfl | ⟨m, e, hm, rfl⟩
    · exact le_rfl
    · rw [value_finite_positive]
      positivity

/-! ## Encoding and rounding -/

/-- A word with a positive sign and no exponent field of an infinity stands for a number. -/
theorem isNonneg_unpack_packComponents {e : BitVec 11} (he : e ≠ -1#11) (m : BitVec 52) :
    IsNonneg (UnpackedFloat.unpack .binary64 (packComponents .binary64 .positive e m)) := by
  simp only [UnpackedFloat.unpack, unpackExponent_packComponents, unpackMantissa_packComponents,
    unpackSign_packComponents, Sign.ofBitVec_toBitVec]
  rw [if_neg he]
  split
  · split
    · exact isNonneg_zero
    · exact isNonneg_finite
  · exact isNonneg_finite

/-- **Encoding leaves a number without a sign what it is**: it may lose digits, but it becomes
neither negative nor no number at all. -/
theorem isNonneg_unpack_pack (h : IsNonneg u) : IsNonneg (Float.Model.pack u).unpack := by
  have hbias : Format.binary64.exponentBias = 1023 := by decide
  show IsNonneg (UnpackedFloat.unpack .binary64 (UnpackedFloat.pack .binary64 u))
  rcases h with rfl | h
  · exact isNonneg_zero
  · rcases isPositive_iff.1 h with rfl | ⟨m, e, hm, rfl⟩
    · exact .inr trivial
    · simp only [UnpackedFloat.pack, hbias]
      split
      · exact .inr trivial
      · rename_i hsmall
        split
        · refine isNonneg_unpack_packComponents (fun heq => ?_) _
          have hfield := congrArg BitVec.toNat heq
          rw [BitVec.toNat_ofNat] at hfield
          change _ = 2047 at hfield
          omega
        · exact isNonneg_unpack_packComponents (by decide) _

/-- Rounding makes no number negative. -/
theorem isNonneg_roundWithAccuracy (m : ℕ) (e : ℤ) (acc : Accuracy) :
    IsNonneg (roundWithAccuracy .binary64 .positive m e acc) := by
  simp only [roundWithAccuracy]
  split
  · exact isNonneg_zero
  · exact isNonneg_finite

theorem isNonneg_normalize (m : ℕ) (e : ℤ) : IsNonneg (normalize .binary64 m e .positive) := by
  rw [normalize_natCast]
  split
  · exact isNonneg_zero
  · exact isNonneg_roundWithAccuracy _ _ _

/-! ## Quotients -/

/-- **A finite number without a sign, divided by a positive one, is a number without a sign.** -/
theorem isNonneg_div (hx : IsNonneg x.toModel.unpack) (hf : x.isFinite = true)
    (hy : IsPositive y.toModel.unpack) : IsNonneg (x / y).toModel.unpack := by
  have hdiv : x / y = .ofModel (.pack
      (UnpackedFloat.div .binary64 x.toModel.unpack y.toModel.unpack)) := rfl
  rw [hdiv]
  refine isNonneg_unpack_pack ?_
  change x.toModel.unpack.isFinite = true at hf
  rcases hx with hx | hx
  · rcases isPositive_iff.1 hy with hy | ⟨n, d, hn, hy⟩ <;> rw [hx, hy] <;> exact isNonneg_zero
  · rcases isPositive_iff.1 hx with hx | ⟨m, e, hm, hx⟩
    · rw [hx] at hf
      cases hf
    · rcases isPositive_iff.1 hy with hy | ⟨n, d, hn, hy⟩
      · rw [hx, hy]
        exact isNonneg_zero
      · rw [hx, hy]
        exact isNonneg_roundWithAccuracy _ _ _

/-- The quotient of two positive numbers has no sign, unless both are infinite. -/
theorem isNaN_or_isNonneg_div (hx : IsPositive x.toModel.unpack)
    (hy : IsPositive y.toModel.unpack) :
    (x / y).isNaN = true ∨ IsNonneg (x / y).toModel.unpack := by
  by_cases hf : x.isFinite = true
  · exact .inr (isNonneg_div (.inr hx) hf hy)
  · have hinf := IsNonneg.eq_infinity (.inr hx) hf
    have hdiv : x / y = .ofModel (.pack
        (UnpackedFloat.div .binary64 x.toModel.unpack y.toModel.unpack)) := rfl
    rcases isPositive_iff.1 hy with hy | ⟨n, d, hn, hy⟩
    · rw [hdiv, hinf, hy]
      exact .inl rfl
    · rw [hdiv, hinf, hy]
      exact .inr (.inr (isPositive_unpack_pack ⟨trivial, trivial⟩))

/-! ## Sums -/

/-- A number that a sum of numbers between zero and one can reach. -/
structure IsSum (x : Float) : Prop where
  /-- The number is finite. -/
  finite : x.isFinite = true
  /-- The number has no sign. -/
  nonneg : IsNonneg x.toModel.unpack
  /-- Beyond this number, one more is rounded away. -/
  le : exact x ≤ 2 ^ (53 : ℤ)

theorem isSum_zero : IsSum 0 :=
  ⟨rfl, isNonneg_zero, by rw [exact_zero]; positivity⟩

/-- Encoding a number in reach changes nothing. -/
theorem isSum_pack (hf : u.isFinite = true) (hform : InFormat u) (hu : IsNonneg u)
    (hle : value u ≤ 2 ^ (53 : ℤ)) : IsSum (.ofModel (.pack u)) := by
  have hunpack : (Float.ofModel (.pack u)).toModel.unpack = u :=
    unpack_pack_of_value_le hform hu.value_nonneg (by decide) hle
  refine ⟨?_, by rwa [hunpack], by rwa [exact, hunpack]⟩
  show UnpackedFloat.isFinite (Float.ofModel (.pack u)).toModel.unpack = true
  rwa [hunpack]

/-- A sum up to one more than the reach is rounded into the reach. -/
theorem isSum_normalize {m : ℕ} {e : ℤ} (h : (m : ℚ) * 2 ^ e ≤ 2 ^ (53 : ℤ) + 1) :
    IsSum (.ofModel (.pack (normalize .binary64 m e .positive))) := by
  obtain ⟨hf, hform⟩ := normalize_natCast_finite m e
  have hlast : value (normalize .binary64 (2 ^ 53 + 1 : ℕ) 0 .positive) = 2 ^ (53 : ℤ) := by
    show ((2 ^ 52 : ℕ) : ℚ) * 2 ^ (1 : ℤ) = 2 ^ (53 : ℤ)
    norm_num
  refine isSum_pack hf hform (isNonneg_normalize m e) ?_
  rw [← hlast]
  refine normalize_mono (h.trans (le_of_eq ?_))
  norm_num

/-- Two positive numbers are added exactly at the smaller of their two exponents, and the sum is
rounded. -/
theorem add_finite_positive (m n : ℕ) (e d : ℤ) (hm : 0 < m) (hn : 0 < n) :
    ∃ k : ℕ, (k : ℚ) * 2 ^ min e d = m * 2 ^ e + n * 2 ^ d ∧
      UnpackedFloat.add .binary64 (.finite .positive m e hm) (.finite .positive n d hn) =
        normalize .binary64 k (min e d) .positive := by
  refine ⟨(decreaseExponent m e (min e d)).1 + (decreaseExponent n d (min e d)).1, ?_, ?_⟩
  · rw [Nat.cast_add, add_mul, decreaseExponent_mul (min_le_left e d),
      decreaseExponent_mul (min_le_right e d)]
  · rw [Nat.cast_add]
    rfl

/-- **Adding a number between zero and one stays in reach.**

**Proof sketch.** Both numbers are brought to the smaller of their two exponents, where the
mantissas are added exactly; the exact sum is at most one more than the reach. -/
theorem IsSum.add (hx : IsSum x) (hy : InUnit y) : IsSum (x + y) := by
  have hadd : x + y = .ofModel (.pack
      (UnpackedFloat.add .binary64 x.toModel.unpack y.toModel.unpack)) := rfl
  have hformx : InFormat x.toModel.unpack := inFormat_unpack _
  have hformy : InFormat y.toModel.unpack := inFormat_unpack _
  obtain ⟨hfx, hnx, hlex⟩ := hx
  obtain ⟨hfy, h0y, h1y⟩ := hy
  rw [hadd]
  unfold exact at *
  change x.toModel.unpack.isFinite = true at hfx
  change y.toModel.unpack.isFinite = true at hfy
  cases hv : y.toModel.unpack with
  | notANumber => rw [hv] at hfy; cases hfy
  | infinity t => rw [hv] at hfy; cases hfy
  | zero t =>
    rcases hnx with hu | hpos
    · rw [hu]
      cases t <;> exact isSum_zero
    · have hself : UnpackedFloat.add .binary64 x.toModel.unpack (.zero t) = x.toModel.unpack := by
        rcases isPositive_iff.1 hpos with hu | ⟨m, e, hm, hu⟩ <;> rw [hu] <;> rfl
      rw [hself]
      exact isSum_pack hfx hformx (.inr hpos) hlex
  | finite t n d hn =>
    rw [hv] at h0y h1y hformy
    obtain rfl := sign_eq_positive h0y
    rcases hnx with hu | hpos
    · rw [hu]
      exact isSum_pack rfl hformy isNonneg_finite (h1y.trans (by norm_num))
    · rcases isPositive_iff.1 hpos with hu | ⟨m, e, hm, hu⟩
      · rw [hu] at hfx
        cases hfx
      · rw [hu] at hlex ⊢
        rw [value_finite_positive] at hlex h1y
        obtain ⟨k, hk, hsum⟩ := add_finite_positive m n e d hm hn
        rw [hsum]
        refine isSum_normalize ?_
        rw [hk]
        exact add_le_add hlex h1y

/-- Sums of numbers between zero and one stay in reach. -/
theorem isSum_foldl {β : Type*} (f : β → Float) (hf : ∀ b, InUnit (f b)) (l : List β)
    (hx : IsSum x) : IsSum (l.foldl (fun sum b => sum + f b) x) := by
  induction l generalizing x with
  | nil => exact hx
  | cons b l ih => exact ih (hx.add (hf b))

/-- **The sum of two positive numbers is positive.**

**Proof sketch.** The exact sum is at least the least power of two, so it is not rounded to zero. -/
theorem isPositive_add (hx : IsPositive x.toModel.unpack) (hy : IsPositive y.toModel.unpack) :
    IsPositive (x + y).toModel.unpack := by
  have hadd : x + y = .ofModel (.pack
      (UnpackedFloat.add .binary64 x.toModel.unpack y.toModel.unpack)) := rfl
  have hform : InFormat y.toModel.unpack := inFormat_unpack _
  have hinfinity : IsPositive (Float.Model.pack (.infinity .positive)).unpack :=
    isPositive_unpack_pack ⟨trivial, trivial⟩
  rw [hadd]
  rcases isPositive_iff.1 hx with hx | ⟨m, e, hm, hx⟩ <;>
    rcases isPositive_iff.1 hy with hy | ⟨n, d, hn, hy⟩ <;> rw [hx, hy]
  · exact hinfinity
  · exact hinfinity
  · exact hinfinity
  · obtain ⟨k, hk, hsum⟩ := add_finite_positive m n e d hm hn
    rw [hy] at hform
    have hleast : (2 : ℚ) ^ (-1074 : ℤ) ≤ k * 2 ^ min e d := by
      have hn1 : (1 : ℚ) ≤ n := by exact_mod_cast hn
      calc (2 : ℚ) ^ (-1074 : ℤ) ≤ 2 ^ d := zpow_le_zpow_right₀ one_le_two hform.2.1
        _ ≤ n * 2 ^ d := le_mul_of_one_le_left (by positivity) hn1
        _ ≤ m * 2 ^ e + n * 2 ^ d := le_add_of_nonneg_left (by positivity)
        _ = k * 2 ^ min e d := hk.symm
    have hk0 : k ≠ 0 := by
      rintro rfl
      rw [Nat.cast_zero, zero_mul] at hleast
      exact absurd hleast (not_le.2 (by positivity))
    have hround : normalize .binary64 (k : ℤ) (min e d) .positive =
        round .binary64 .positive k (min e d) := by
      rw [normalize_natCast, if_neg hk0]
    refine isPositive_unpack_pack ⟨isPositive_of_value_pos ?_, ?_⟩
    · rw [hsum, hround]
      exact (isRounded_round hk0).pos hleast
    · rw [hsum]
      exact (normalize_natCast_finite k (min e d)).2

/-! ## Comparisons -/

/-- A number that is finite or has no sign: neither the negative infinity nor no number at all. -/
def IsOrdered (x : Float) : Prop :=
  x.isFinite = true ∨ IsNonneg x.toModel.unpack

/-- The place of a number among those that are ordered, the positive infinity last. -/
def rank (x : Float) : WithTop ℚ :=
  if x.isFinite then exact x else ⊤

/-- A number that is ordered, but not finite, is the positive infinity. -/
theorem IsOrdered.unpack_eq_infinity (hx : IsOrdered x) (hf : ¬ x.isFinite = true) :
    x.toModel.unpack = .infinity .positive :=
  (hx.resolve_left hf).eq_infinity hf

/-- A finite number comes before the positive infinity. -/
theorem compare_infinity (hx : x.isFinite = true) :
    x.toModel.unpack.compare (.infinity .positive) = some .lt ∧
      (UnpackedFloat.infinity .positive).compare x.toModel.unpack = some .gt := by
  change x.toModel.unpack.isFinite = true at hx
  cases hu : x.toModel.unpack with
  | notANumber => rw [hu] at hx; cases hx
  | infinity s => rw [hu] at hx; cases hx
  | zero s => exact ⟨rfl, rfl⟩
  | finite s m e hm => cases s <;> exact ⟨rfl, rfl⟩

/-- **Numbers that are ordered are compared by their places.** -/
theorem compare_eq_compare_rank (hx : IsOrdered x) (hy : IsOrdered y) :
    x.toModel.unpack.compare y.toModel.unpack = some (compare (rank x) (rank y)) := by
  unfold rank
  split_ifs with hfx hfy hfy
  · have hcoe : cmp (exact x : WithTop ℚ) (exact y) = cmp (exact x) (exact y) :=
      WithTop.coe_strictMono.cmp_map_eq _ _
    rw [compare_eq_compare_exact hfx hfy, ← cmp_eq_compare, ← cmp_eq_compare, hcoe]
  · rw [hy.unpack_eq_infinity hfy, (compare_infinity hfx).1,
      compare_lt_iff_lt.2 (WithTop.coe_lt_top _)]
  · rw [hx.unpack_eq_infinity hfx, (compare_infinity hfy).2,
      compare_gt_iff_gt.2 (WithTop.coe_lt_top _)]
  · rw [hx.unpack_eq_infinity hfx, hy.unpack_eq_infinity hfy, compare_eq_iff_eq.2 rfl]
    rfl

theorem lt_iff_rank_lt (hx : IsOrdered x) (hy : IsOrdered y) : x < y ↔ rank x < rank y := by
  rw [lt_iff_compare, compare_eq_compare_rank hx hy, Option.some_inj, compare_lt_iff_lt]

theorem le_iff_rank_le (hx : IsOrdered x) (hy : IsOrdered y) : x ≤ y ↔ rank x ≤ rank y := by
  rw [le_iff_compare, compare_eq_compare_rank hx hy, Option.any_some, Ordering.isLE_iff_ne_gt,
    compare_gt_iff_gt]
  exact not_lt

/-- **Numbers that are ordered can be compared**: one is below the other exactly if it does not
reach it. -/
theorem lt_iff_not_le (hx : IsOrdered x) (hy : IsOrdered y) : x < y ↔ ¬ y ≤ x := by
  rw [lt_iff_rank_lt hx hy, le_iff_rank_le hy hx, not_le]

/-! ## Zero -/

/-- Only the word without any bit stands for the zero without a sign. -/
theorem eq_zero_of_unpack {b : BitVec Format.binary64.numBits}
    (h : UnpackedFloat.unpack .binary64 b = .zero .positive) : b = 0#64 := by
  simp only [UnpackedFloat.unpack] at h
  split at h
  · split at h <;> cases h
  split at h
  case isFalse => cases h
  case isTrue he =>
    split at h
    case isFalse => cases h
    case isTrue hm =>
      have hs : unpackSign b = 0#1 := by
        have hsign := UnpackedFloat.zero.inj h
        unfold Sign.ofBitVec at hsign
        split at hsign
        · assumption
        · cases hsign
      -- the three fields cover the word
      have hword : b.toNat < 2 ^ 64 := b.isLt
      have hmantissa : b.toNat >>> 0 % 2 ^ 52 = 0 := congrArg BitVec.toNat hm
      have hexponent : b.toNat >>> 52 % 2 ^ 11 = 0 := congrArg BitVec.toNat he
      have hsign : b.toNat >>> 63 % 2 ^ 1 = 0 := congrArg BitVec.toNat hs
      rw [Nat.shiftRight_eq_div_pow] at hmantissa hexponent hsign
      refine BitVec.eq_of_toNat_eq ?_
      show b.toNat = 0
      omega

/-- There is one zero without a sign. -/
theorem eq_zero (h : x.toModel.unpack = .zero .positive) : x = 0 := by
  obtain ⟨⟨b, hb⟩⟩ := x
  have hbits : b.toBitVec = 0#64 := eq_zero_of_unpack h
  obtain rfl : b = 0 := UInt64.toBitVec_inj.1 hbits
  rfl

theorem zero_lt_of_isPositive (h : IsPositive x.toModel.unpack) : 0 < x := by
  rw [lt_iff_compare, unpack_zero]
  rcases isPositive_iff.1 h with h | ⟨m, e, hm, h⟩ <;> rw [h] <;> rfl

theorem isPositive_of_zero_lt (h : 0 < x) : IsPositive x.toModel.unpack := by
  rw [lt_iff_compare, unpack_zero] at h
  generalize x.toModel.unpack = u at h
  cases u with
  | notANumber => cases h
  | zero s => cases s <;> cases h
  | infinity s =>
    cases s with
    | negative => cases h
    | positive => trivial
  | finite s m e hm =>
    cases s with
    | negative => cases h
    | positive => trivial

/-- **A sum of positive numbers is positive.** -/
theorem zero_lt_add (hx : 0 < x) (hy : 0 < y) : 0 < x + y :=
  zero_lt_of_isPositive (isPositive_add (isPositive_of_zero_lt hx) (isPositive_of_zero_lt hy))

/-- **A number is positive unless it is no number at all or at most zero.** -/
theorem zero_lt_iff : 0 < x ↔ ¬ (x.isNaN = true ∨ x ≤ 0) := by
  rw [lt_iff_compare, le_iff_compare, unpack_zero]
  show _ ↔ ¬ (x.toModel.unpack.isNaN = true ∨ _)
  cases x.toModel.unpack with
  | notANumber => decide
  | infinity s => cases s <;> decide
  | zero s => cases s <;> decide
  | finite s m e hm =>
    cases s with
    | negative => exact iff_of_false nofun fun h => h (.inr rfl)
    | positive => exact iff_of_true rfl fun h => h.elim nofun nofun

/-- **What is no number or has no sign is clamped to zero, unless it is positive.** -/
theorem clampUnit_eq_zero (hx : x.isNaN = true ∨ IsNonneg x.toModel.unpack) (h : ¬ 0 < x) :
    clampUnit x = 0 := by
  rcases hx with hx | hx | hx
  · rw [clampUnit, if_pos hx]
  · rw [eq_zero hx, clampUnit_of_inUnit inUnit_zero]
  · exact absurd (zero_lt_of_isPositive hx) h

end ModuleRecovery.Number
