import ModuleRecovery.Proofs.Number.Rounding

set_option relaxedAutoImplicit false
set_option autoImplicit false

/-!
# Counts as floating-point numbers

A share is the quotient of two counts. A count of at most 53 digits is converted exactly, and one
of at most 64 digits, which is what a machine word holds, to a finite number. However great a
count is, the number it is converted to is positive, or at worst infinite, so zero shares of it
are zero.

## Main definitions

* `ModuleRecovery.Number.IsPositive` — a positive number or the positive infinity.
* `ModuleRecovery.Number.IsCount` — a number that is a given count, written with 53 digits.

## Main results

* `ModuleRecovery.Number.isCount_ofNat` — a count of at most 53 digits is converted exactly.
* `ModuleRecovery.Number.isPositive_ofNat` — a positive count is converted to one of these.
* `ModuleRecovery.Number.exists_unpack_ofNat` — a count of at most 64 digits is converted to a
  finite number.
* `ModuleRecovery.Number.zero_div_ofNat` — zero divided by a positive count is zero.
-/

namespace ModuleRecovery.Number

open Float.Model Float.Model.UnpackedFloat

/-- A positive number, or the positive infinity. -/
def IsPositive : UnpackedFloat → Prop
  | .finite .positive _ _ _ => True
  | .infinity .positive => True
  | _ => False

/-- A positive number is the positive infinity or a finite number with a positive sign. -/
theorem isPositive_iff {u : UnpackedFloat} :
    IsPositive u ↔ u = .infinity .positive ∨ ∃ m e hm, u = .finite .positive m e hm := by
  constructor
  · intro hu
    cases u with
    | notANumber => exact hu.elim
    | zero s => exact hu.elim
    | infinity s =>
      cases s with
      | negative => exact hu.elim
      | positive => exact .inl rfl
    | finite s m e hm =>
      cases s with
      | negative => exact hu.elim
      | positive => exact .inr ⟨m, e, hm, rfl⟩
  · rintro (rfl | ⟨m, e, hm, rfl⟩)
    · trivial
    · trivial

theorem isPositive_of_value_pos {u : UnpackedFloat} (hu : 0 < value u) : IsPositive u := by
  cases u with
  | notANumber => simp [value] at hu
  | infinity s => simp [value] at hu
  | zero s => simp [value] at hu
  | finite s m e hm =>
    obtain rfl := sign_eq_positive hu.le
    trivial

/-- Encoding keeps positive numbers positive: too great a number becomes an infinity. -/
theorem isPositive_unpack_pack {u : UnpackedFloat} (h : IsPositive u ∧ InFormat u) :
    IsPositive (Float.Model.pack u).unpack := by
  obtain ⟨hu, hf⟩ := h
  show IsPositive (UnpackedFloat.unpack .binary64 (UnpackedFloat.pack .binary64 u))
  rcases isPositive_iff.1 hu with rfl | ⟨m, e, hm, rfl⟩
  · rw [unpack_pack hf (by rintro _ _ _ _ ⟨⟩)]
    trivial
  · by_cases he : e ≤ 971
    · rw [unpack_pack hf (by rintro _ _ _ _ ⟨⟩; exact he)]
      trivial
    · have hbias : Format.binary64.exponentBias = 1023 := by decide
      have hbig : 2 ^ 11 ≤ (e + (1023 : ℕ) + (52 : ℕ)).toNat + 1 := by omega
      simp only [UnpackedFloat.pack, hbias]
      rw [if_pos hbig]
      trivial

/-- A product that is not cut off at the least exponent is positive. -/
theorem isPositive_roundWithAccuracy {m : ℕ} {e : ℤ} (hm : m ≠ 0) (he : e ≤ lastExponent m e)
    (hlast : -1074 < lastExponent m e) :
    IsPositive (roundWithAccuracy .binary64 .positive m e .exact) ∧
      InFormat (roundWithAccuracy .binary64 .positive m e .exact) := by
  obtain ⟨r, -, -, hr, hval, hform, -⟩ :=
    roundWithAccuracy_spec (s := .positive) hm he (describes_exact m)
  refine ⟨isPositive_of_value_pos ?_, hform⟩
  have hr' : 0 < r := by omega
  rw [hval]
  simp only [Sign.apply, Int.cast_natCast]
  positivity

/-! ## Exact counts -/

/-- `u` is the count `n`, written with 53 digits. -/
def IsCount (n : ℕ) (u : UnpackedFloat) : Prop :=
  ∃ m e hm, u = .finite .positive m e hm ∧ 2 ^ 52 ≤ m ∧ m < 2 ^ 53 ∧ (m : ℚ) * 2 ^ e = n

theorem IsCount.isPositive {n : ℕ} {u : UnpackedFloat} (h : IsCount n u) : IsPositive u := by
  obtain ⟨m, e, hm, rfl, -⟩ := h
  trivial

/-- A number of at least one is not written with a small exponent. -/
theorem neg_lt_exponent {m : ℕ} {e : ℤ} (hm : m < 2 ^ 53) (h : (1 : ℚ) ≤ m * 2 ^ e) :
    -53 < e := by
  have hm' : (m : ℚ) < 2 ^ (53 : ℤ) := by exact_mod_cast hm
  have hpow : (2 : ℚ) ^ (0 : ℤ) < 2 ^ (53 + e) := by
    calc (2 : ℚ) ^ (0 : ℤ) = 1 := zpow_zero 2
      _ ≤ m * 2 ^ e := h
      _ < 2 ^ (53 : ℤ) * 2 ^ e := by gcongr
      _ = 2 ^ (53 + e) := (zpow_add₀ two_ne_zero _ _).symm
  have hexp := (zpow_lt_zpow_iff_right₀ (one_lt_two : (1 : ℚ) < 2)).1 hpow
  omega

/-- A number of the format that is at least one and not too great is written with 53 digits, and
encoding does not change it. -/
theorem exists_unpack_pack {u : UnpackedFloat} (hf : InFormat u) (hone : 1 ≤ value u) {k : ℤ}
    (hk : k ≤ 971) (hle : value u ≤ 2 ^ k) :
    ∃ m e hm, (Float.Model.pack u).unpack = .finite .positive m e hm ∧ 2 ^ 52 ≤ m ∧ m < 2 ^ 53 ∧
      (m : ℚ) * 2 ^ e = value u := by
  have h0 : 0 ≤ value u := zero_le_one.trans hone
  have hpack : (Float.Model.pack u).unpack = u := unpack_pack_of_value_le hf h0 hk hle
  rw [hpack]
  cases u with
  | notANumber | infinity s | zero s =>
    simp only [value] at hone
    linarith
  | finite s m e hm =>
    obtain rfl := sign_eq_positive h0
    obtain ⟨hlt, -, hge⟩ := hf
    rw [value_finite_positive] at hone
    have he := neg_lt_exponent hlt hone
    exact ⟨m, e, hm, rfl, hge.resolve_right (by omega), hlt, value_finite_positive.symm⟩

/-- A number of the format that stands for a count of at most 53 digits is written with 53
digits, and encoding does not change it. -/
theorem isCount_unpack_pack {u : UnpackedFloat} {n : ℕ} (hf : InFormat u) (hval : value u = n)
    (hn : 0 < n) (hsmall : n < 2 ^ 53) : IsCount n (Float.Model.pack u).unpack := by
  have hone : 1 ≤ value u := hval ▸ by exact_mod_cast hn
  have hle : value u ≤ 2 ^ (53 : ℤ) := hval ▸ by exact_mod_cast hsmall.le
  obtain ⟨m, e, hm, hu, hge, hlt, hvalue⟩ := exists_unpack_pack hf hone (by decide) hle
  exact ⟨m, e, hm, hu, hge, hlt, hvalue.trans hval⟩

/-- A count of at most 53 digits is its own rounding. -/
theorem isCount_toFloat {n : ℕ} (hn : 0 < n) (hsmall : n < 2 ^ 53) :
    IsCount n n.toUInt64.toFloat.toModel.unpack := by
  have hnat : n.toUInt64.toNat = n := by
    rw [Nat.toUInt64_eq, UInt64.toNat_ofNat']
    omega
  have hu : n.toUInt64.toFloat.toModel.unpack =
      (Float.Model.pack (normalize .binary64 n 0 .positive)).unpack := by
    conv_rhs => rw [← hnat]
    rfl
  have hval : value (normalize .binary64 n 0 .positive) = n := by
    have hround := isRounded_round (m := n) (e := 0) hn.ne'
    rw [zpow_zero, mul_one] at hround
    rw [normalize_natCast, if_neg hn.ne']
    exact hround.eq_natCast hsmall
  rw [hu]
  exact isCount_unpack_pack (normalize_natCast_finite n 0).2 hval hn hsmall

/-- Multiplying a count by one does not change it. -/
theorem IsCount.mul_one {n : ℕ} {u : UnpackedFloat} (h : IsCount n u) (hn : 0 < n)
    (hsmall : n < 2 ^ 53) :
    IsCount n (Float.Model.pack (UnpackedFloat.mul .binary64 u
      (.finite .positive (2 ^ 52) (-52) (by decide)))).unpack := by
  obtain ⟨m, e, hm, rfl, hge, -, hval⟩ := h
  have hne : m * 2 ^ 52 ≠ 0 := by positivity
  have hlast : e + -52 ≤ lastExponent (m * 2 ^ 52) (e + -52) := by
    have hlog : 52 ≤ (m * 2 ^ 52).log2 := (Nat.le_log2 hne).2 (by omega)
    rw [lastExponent_eq]
    omega
  have hround := isRounded_roundWithAccuracy hne hlast (describes_exact (m * 2 ^ 52))
  obtain ⟨-, -, -, -, -, hform, -⟩ :=
    roundWithAccuracy_spec (s := .positive) hne hlast (describes_exact (m * 2 ^ 52))
  have hprod : ((m * 2 ^ 52 : ℕ) : ℚ) * 2 ^ (e + -52) = n := by
    rw [← hval, zpow_add₀ two_ne_zero]
    push_cast
    ring
  rw [hprod] at hround
  exact isCount_unpack_pack hform (hround.eq_natCast hsmall) hn hsmall

/-- **A count of at most 53 digits is converted exactly.**

**Proof sketch.** The count is rounded and multiplied by one, which rounds once more; neither
changes a natural number of at most 53 digits. -/
theorem isCount_ofNat {n : ℕ} (hn : 0 < n) (hsmall : n < 2 ^ 53) :
    IsCount n (Float.ofNat n).toModel.unpack := by
  have hone : (Float.ofBits 0x3FF0000000000000).toModel.unpack =
      .finite .positive (2 ^ 52) (-52) (by decide) := rfl
  have hofNat : Float.ofNat n = .ofModel (.pack (UnpackedFloat.mul .binary64
      n.toUInt64.toFloat.toModel.unpack
      (Float.ofBits 0x3FF0000000000000).toModel.unpack)) := by
    rw [Float.ofNat]
    show Float.ofScientific n false 0 = _
    rw [Float.ofScientific, dif_pos ⟨hsmall, by decide⟩]
    rfl
  rw [hofNat, hone]
  exact (isCount_toFloat hn hsmall).mul_one hn hsmall

/-! ## All counts -/

/-- A count of more than 53 digits is rounded with 53 digits behind its own. -/
theorem ofNat_eq_round {n : ℕ} (hlarge : 2 ^ 53 ≤ n) :
    Float.ofNat n =
      .ofModel (.pack (roundWithAccuracy .binary64 .positive (n <<< 53) (-53) .exact)) := by
  have hsafe : ¬ (0 : ℤ) < -(2 ^ Format.binary64.exponentBits + n.log2) := by
    have : (0 : ℤ) < 2 ^ Format.binary64.exponentBits := by positivity
    omega
  have hofNat : Float.ofNat n = .ofModel (.pack (roundWithAccuracy .binary64 .positive
      ((n <<< 53) * 10 ^ (0 : ℤ).toNat) (-53 + 0) .exact)) := by
    rw [Float.ofNat]
    show Float.ofScientific n false 0 = _
    rw [Float.ofScientific, dif_neg fun h => h.1.not_ge hlarge]
    show Float.ofModel (.pack (UnpackedFloat.ofScientific .binary64 n 0)) = _
    rw [UnpackedFloat.ofScientific, dif_neg (by omega), if_neg (by decide), if_neg hsafe,
      if_pos le_rfl]
    rfl
  rw [hofNat, Int.toNat_zero, pow_zero, mul_one, add_zero]

/-- A count of more than 53 digits is cut off behind its first 53 digits. -/
theorem lastExponent_count {n : ℕ} (hlarge : 2 ^ 53 ≤ n) :
    lastExponent (n <<< 53) (-53) = n.log2 - 52 ∧ 53 ≤ n.log2 := by
  have hne : n ≠ 0 := by omega
  have hlog : 53 ≤ n.log2 := (Nat.le_log2 hne).2 hlarge
  refine ⟨?_, hlog⟩
  rw [show (-53 : ℤ) = 0 - (53 : ℕ) by rfl, lastExponent_shiftLeft hne, lastExponent_eq]
  omega

/-- **A positive count is converted to a positive number.**

**Proof sketch.** A count of at most 53 digits is converted exactly. A greater one is written
with 53 digits behind its own; it is at least one, so it is not cut off at the least exponent. -/
theorem isPositive_ofNat {n : ℕ} (hn : 0 < n) : IsPositive (Float.ofNat n).toModel.unpack := by
  rcases Nat.lt_or_ge n (2 ^ 53) with hsmall | hlarge
  · exact (isCount_ofNat hn hsmall).isPositive
  · obtain ⟨hlast, hlog⟩ := lastExponent_count hlarge
    rw [ofNat_eq_round hlarge]
    refine isPositive_unpack_pack (isPositive_roundWithAccuracy ?_ (by omega) (by omega))
    rw [Nat.shiftLeft_eq]
    positivity

/-- A product that is cut off at an exponent between `0` and `11` is rounded to a number between
one and `2 ^ 64`, written with 53 digits. -/
theorem exists_unpack_pack_round {m : ℕ} {e : ℤ} (hm : m ≠ 0) (he : e ≤ lastExponent m e)
    (hlow : 0 ≤ lastExponent m e) (hhigh : lastExponent m e ≤ 11) :
    ∃ k d hk, (Float.Model.pack (roundWithAccuracy .binary64 .positive m e .exact)).unpack =
      .finite .positive k d hk ∧ 2 ^ 52 ≤ k ∧ k < 2 ^ 53 ∧
        1 ≤ (k : ℚ) * 2 ^ d ∧ (k : ℚ) * 2 ^ d ≤ 2 ^ (64 : ℤ) := by
  obtain ⟨r, -, hr, hr', hval, hform, -⟩ :=
    roundWithAccuracy_spec (s := .positive) hm he (describes_exact m)
  rw [Sign.apply, Int.cast_natCast] at hval
  have hone : 1 ≤ value (roundWithAccuracy .binary64 .positive m e .exact) := by
    have hr1 : (1 : ℚ) ≤ r := by exact_mod_cast (by omega : 1 ≤ r)
    rw [hval]
    exact one_le_mul_of_one_le_of_one_le hr1 (one_le_zpow₀ one_le_two hlow)
  have hle : value (roundWithAccuracy .binary64 .positive m e .exact) ≤ 2 ^ (64 : ℤ) := by
    have hr53 : (r : ℚ) ≤ 2 ^ (53 : ℤ) := by exact_mod_cast hr
    have hpow : (2 : ℚ) ^ lastExponent m e ≤ 2 ^ (11 : ℤ) := zpow_le_zpow_right₀ one_le_two hhigh
    rw [hval]
    calc (r : ℚ) * 2 ^ lastExponent m e ≤ 2 ^ (53 : ℤ) * 2 ^ (11 : ℤ) :=
          mul_le_mul hr53 hpow (by positivity) (by positivity)
      _ = 2 ^ (64 : ℤ) := (zpow_add₀ two_ne_zero 53 11).symm
  obtain ⟨k, d, hk, hu, hge, hlt, hvalue⟩ := exists_unpack_pack hform hone (by decide) hle
  exact ⟨k, d, hk, hu, hge, hlt, hvalue ▸ hone, hvalue ▸ hle⟩

/-- **A positive count of at most 64 digits is converted to a number** between one and `2 ^ 64`,
written with 53 digits.

**Proof sketch.** A count of more than 53 digits is cut off behind its first 53 digits, so at an
exponent between `1` and `11`. -/
theorem exists_unpack_ofNat {n : ℕ} (hn : 0 < n) (hword : n < 2 ^ 64) :
    ∃ m e hm, (Float.ofNat n).toModel.unpack = .finite .positive m e hm ∧ 2 ^ 52 ≤ m ∧
      m < 2 ^ 53 ∧ 1 ≤ (m : ℚ) * 2 ^ e ∧ (m : ℚ) * 2 ^ e ≤ 2 ^ (64 : ℤ) := by
  rcases Nat.lt_or_ge n (2 ^ 53) with hsmall | hlarge
  · obtain ⟨m, e, hm, hu, hge, hlt, hval⟩ := isCount_ofNat hn hsmall
    refine ⟨m, e, hm, hu, hge, hlt, hval ▸ ?_, hval ▸ ?_⟩
    · exact_mod_cast hn
    · exact_mod_cast hword.le
  · obtain ⟨hlast, hlog⟩ := lastExponent_count hlarge
    have hlog' : n.log2 < 64 := (Nat.log2_lt hn.ne').2 hword
    have hne : n <<< 53 ≠ 0 := by
      rw [Nat.shiftLeft_eq]
      positivity
    rw [ofNat_eq_round hlarge]
    exact exists_unpack_pack_round hne (by omega) (by omega) (by omega)

/-- **Zero divided by a positive count is zero.** -/
theorem zero_div_ofNat {n : ℕ} (hn : 0 < n) : (0 : Float) / Float.ofNat n = 0 := by
  have hdiv : (0 : Float) / Float.ofNat n = .ofModel (.pack
      (UnpackedFloat.div .binary64 (.zero .positive) (Float.ofNat n).toModel.unpack)) := rfl
  rw [hdiv]
  rcases isPositive_iff.1 (isPositive_ofNat hn) with hu | ⟨m, e, hm, hu⟩
  · rw [hu]
    rfl
  · rw [hu]
    rfl

end ModuleRecovery.Number
