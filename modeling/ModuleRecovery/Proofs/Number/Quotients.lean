import ModuleRecovery.Proofs.Number.Nonnegative

set_option relaxedAutoImplicit false
set_option autoImplicit false

/-!
# Quotients of counts

The quotient of two counts is cut off behind its first 53 digits, and the remainder of the
division decides how it is rounded. A part of a whole of at most 53 digits is so changed by less
than half of one count, and different parts of one whole are different numbers. Counts of at most
64 digits are rounded themselves before they are divided, but their quotient is still not zero.

## Main results

* `ModuleRecovery.Number.describes_div` — the remainder tells what is behind the quotient.
* `ModuleRecovery.Number.isRounded_div` — a quotient is rounded once.
* `ModuleRecovery.Number.exact_div_ofNat` — the quotient of a part and a whole.
* `ModuleRecovery.Number.div_ofNat_lt_iff` — parts of a whole are in the order of the counts.
* `ModuleRecovery.Number.zero_lt_div_ofNat` — the quotient of positive counts is positive.
-/

namespace ModuleRecovery.Number

open Float.Model Float.Model.UnpackedFloat

/-- **The quotient of two natural numbers and what its remainder says describe their rational
quotient**: the remainder is compared with half of the divisor. -/
theorem describes_div (m : ℕ) {n : ℕ} (hn : 0 < n) :
    Describes (.ofMantissaAndAccuracy (m / n) (accuracyOfFraction (m % n) n)) (m / n) := by
  have hn' : (0 : ℚ) < n := by exact_mod_cast hn
  have hdiv : (m : ℚ) / n = (m / n : ℕ) + (m % n : ℕ) / n := by
    rw [div_eq_iff hn'.ne', add_mul, div_mul_cancel₀ _ hn'.ne']
    exact_mod_cast (Nat.div_add_mod' m n).symm
  have hlt : ((m % n : ℕ) : ℚ) / n < 1 := by
    rw [div_lt_one hn']
    exact_mod_cast Nat.mod_lt m hn
  rw [hdiv]
  unfold accuracyOfFraction
  split
  next h0 =>
    rw [h0, Nat.cast_zero, zero_div, add_zero]
    exact describes_exact _
  next h0 =>
    have hpos : (0 : ℚ) < ((m % n : ℕ) : ℚ) / n := by
      have : (0 : ℚ) < (m % n : ℕ) := by exact_mod_cast Nat.pos_of_ne_zero h0
      positivity
    rcases lt_trichotomy (2 * (m % n)) n with h | h | h
    · have hhalf : ((m % n : ℕ) : ℚ) / n < 1 / 2 := by
        rw [div_lt_div_iff₀ hn' two_pos]
        have : (2 : ℚ) * (m % n : ℕ) < n := by exact_mod_cast h
        linarith
      rw [compare_lt_iff_lt.2 h]
      constructor <;> simp [halves, ExtendedMantissa.ofMantissaAndAccuracy] <;> linarith
    · have hhalf : ((m % n : ℕ) : ℚ) / n = 1 / 2 := by
        rw [div_eq_div_iff hn'.ne' two_ne_zero]
        have : (2 : ℚ) * (m % n : ℕ) = n := by exact_mod_cast h
        linarith
      rw [compare_eq_iff_eq.2 h, hhalf]
      constructor <;> simp [halves, ExtendedMantissa.ofMantissaAndAccuracy]
    · have hhalf : 1 / 2 < ((m % n : ℕ) : ℚ) / n := by
        rw [div_lt_div_iff₀ two_pos hn']
        have : (n : ℚ) < 2 * (m % n : ℕ) := by exact_mod_cast h
        linarith
      rw [compare_gt_iff_gt.2 h]
      constructor <;> simp [halves, ExtendedMantissa.ofMantissaAndAccuracy] <;> linarith

/-- **A quotient of two numbers with full mantissas is rounded once**, if it does not come near
the least exponent.

**Proof sketch.** The first mantissa is moved up by 53 digits, so that the quotient of the two has
at least 53 digits, and the remainder tells what is behind them. -/
theorem isRounded_div {m n : ℕ} {e d : ℤ} {hm : 0 < m} {hn : 0 < n} (hm52 : 2 ^ 52 ≤ m)
    (hm53 : m < 2 ^ 53) (hn52 : 2 ^ 52 ≤ n) (hn53 : n < 2 ^ 53) (hed : -1021 ≤ e - d) :
    IsRounded ((m : ℚ) * 2 ^ e / (n * 2 ^ d)) (value (UnpackedFloat.div .binary64
      (.finite .positive m e hm) (.finite .positive n d hn))) ∧
    InFormat (UnpackedFloat.div .binary64
      (.finite .positive m e hm) (.finite .positive n d hn)) ∧
    (UnpackedFloat.div .binary64
      (.finite .positive m e hm) (.finite .positive n d hn)).isFinite = true := by
  have hmlog : m.log2 = 52 := (Nat.log2_eq_iff hm.ne').2 ⟨hm52, hm53⟩
  have hnlog : n.log2 = 52 := (Nat.log2_eq_iff hn.ne').2 ⟨hn52, hn53⟩
  have hcore : divCore .binary64 m e n d =
      (m * 2 ^ 53 / n, e - d - 53, accuracyOfFraction (m * 2 ^ 53 % n) n) := by
    have hmin : Format.binary64.minExponent = -1074 := by decide
    have htarget : min (e - d) (Format.binary64.targetExponent
        (totalExponent m e - totalExponent n d)) = e - d - 53 := by
      simp only [Format.targetExponent, totalExponent, hmlog, hnlog, hmin, Format.mantissaBits]
      omega
    have hshift : (e - d - (e - d - 53)).toNat = 53 := by omega
    simp only [divCore, htarget, hshift, Nat.shiftLeft_eq]
  have hdiv : UnpackedFloat.div .binary64 (.finite .positive m e hm) (.finite .positive n d hn) =
      roundWithAccuracy .binary64 .positive (m * 2 ^ 53 / n) (e - d - 53)
        (accuracyOfFraction (m * 2 ^ 53 % n) n) := by
    simp only [UnpackedFloat.div, hcore]
    rfl
  have hquot : 2 ^ 52 ≤ m * 2 ^ 53 / n := by
    rw [Nat.le_div_iff_mul_le hn]
    exact Nat.mul_le_mul hm52 hn53.le
  have hne : m * 2 ^ 53 / n ≠ 0 := by omega
  have hlast : e - d - 53 ≤ lastExponent (m * 2 ^ 53 / n) (e - d - 53) := by
    have hlog : 52 ≤ (m * 2 ^ 53 / n).log2 := (Nat.le_log2 hne).2 hquot
    rw [lastExponent_eq]
    omega
  have hround := isRounded_roundWithAccuracy hne hlast (describes_div (m * 2 ^ 53) hn)
  obtain ⟨-, -, -, -, -, hform, hfinite⟩ :=
    roundWithAccuracy_spec (s := .positive) hne hlast (describes_div (m * 2 ^ 53) hn)
  have hq : ((m * 2 ^ 53 : ℕ) : ℚ) / n * 2 ^ (e - d - 53) = m * 2 ^ e / (n * 2 ^ d) := by
    rw [sub_eq_add_neg, zpow_add₀ two_ne_zero, zpow_sub₀ two_ne_zero]
    push_cast
    field_simp
    norm_num
  rw [hq] at hround
  rw [hdiv]
  exact ⟨hround, hform, hfinite⟩

/-! ## Parts of a whole -/

variable {c d n : ℕ}

/-- The quotient of a positive part and a whole is their rational quotient, rounded. -/
theorem isRounded_div_ofNat (hc : 0 < c) (hcn : c ≤ n) (hsmall : n < 2 ^ 53) :
    IsRounded ((c : ℚ) / n) (value (UnpackedFloat.div .binary64
      (Float.ofNat c).toModel.unpack (Float.ofNat n).toModel.unpack)) ∧
    InFormat (UnpackedFloat.div .binary64
      (Float.ofNat c).toModel.unpack (Float.ofNat n).toModel.unpack) ∧
    (UnpackedFloat.div .binary64
      (Float.ofNat c).toModel.unpack (Float.ofNat n).toModel.unpack).isFinite = true := by
  obtain ⟨m, e, hm, hu, hm52, hm53, hval⟩ := isCount_ofNat hc (hcn.trans_lt hsmall)
  obtain ⟨k, d, hk, hv, hk52, hk53, hval'⟩ := isCount_ofNat (hc.trans_le hcn) hsmall
  have he : -53 < e := neg_lt_exponent hm53 (by rw [hval]; exact_mod_cast hc)
  have hd : d ≤ 53 := exponent_le hk (by rw [hval']; exact_mod_cast hsmall.le)
  rw [hu, hv, ← hval, ← hval']
  exact isRounded_div hm52 hm53 hk52 hk53 (by omega)

/-- **Rounding changes a part of a whole by less than half of one count**, and never makes it
more than the whole.

**Proof sketch.** The whole itself is one, which is not changed. A smaller part is changed by at
most half of the 53rd digit, and one count of the whole is more than this digit. -/
theorem IsRounded.part {x : ℚ} (h : IsRounded ((c : ℚ) / n) x) (hn : 0 < n) (hcn : c ≤ n)
    (hsmall : n < 2 ^ 53) : x ≤ 1 ∧ |x - c / n| < 1 / (2 * n) := by
  have hn' : (0 : ℚ) < n := by exact_mod_cast hn
  rcases hcn.eq_or_lt with rfl | hlt
  · rw [div_self hn'.ne'] at h ⊢
    have hone : x = 1 := by simpa using IsRounded.eq_natCast (n := 1) (by simpa using h) (by decide)
    rw [hone, sub_self, abs_zero]
    exact ⟨le_rfl, by positivity⟩
  · have hless : (n : ℚ) < 2 ^ (53 : ℤ) := by exact_mod_cast hsmall
    have hcount : (c : ℚ) / n + 1 / n ≤ 1 := by
      rw [← add_div, div_le_one hn']
      exact_mod_cast hlt
    have hunit : (0 : ℚ) < 1 / n := by positivity
    have hhalf : (1 : ℚ) / (2 * n) = 1 / n / 2 := by rw [div_div, mul_comm]
    have hdist : |x - c / n| < 1 / (2 * n) := by
      calc |x - c / n| ≤ 2 ^ (-54 : ℤ) := h.abs_sub_le (by linarith)
        _ = 1 / (2 * 2 ^ (53 : ℤ)) := by norm_num
        _ < 1 / (2 * n) := by gcongr
    have := (abs_lt.1 hdist).2
    exact ⟨by linarith, hdist⟩

/-- **The quotient of a part and a whole** of at most 53 digits lies between zero and one, and is
less than half of one count away from the rational quotient. -/
theorem exact_div_ofNat (hn : 0 < n) (hcn : c ≤ n) (hsmall : n < 2 ^ 53) :
    InUnit (Float.ofNat c / Float.ofNat n) ∧
      |exact (Float.ofNat c / Float.ofNat n) - c / n| < 1 / (2 * n) := by
  rcases Nat.eq_zero_or_pos c with rfl | hc
  · have hzero : Float.ofNat 0 / Float.ofNat n = 0 := zero_div_ofNat hn
    have hpos : (0 : ℚ) < n := by exact_mod_cast hn
    rw [hzero, exact_zero, Nat.cast_zero, zero_div, sub_zero, abs_zero]
    exact ⟨inUnit_zero, by positivity⟩
  · obtain ⟨hround, hform, hfinite⟩ := isRounded_div_ofNat hc hcn hsmall
    obtain ⟨hle, hdist⟩ := hround.part hn hcn hsmall
    have hunpack : (Float.ofNat c / Float.ofNat n).toModel.unpack = UnpackedFloat.div .binary64
        (Float.ofNat c).toModel.unpack (Float.ofNat n).toModel.unpack :=
      unpack_pack_of_value_le (k := 0) hform hround.nonneg (by decide) (by simpa using hle)
    have hexact : exact (Float.ofNat c / Float.ofNat n) = value (UnpackedFloat.div .binary64
        (Float.ofNat c).toModel.unpack (Float.ofNat n).toModel.unpack) := congrArg value hunpack
    refine ⟨⟨?_, ?_, ?_⟩, ?_⟩
    · show UnpackedFloat.isFinite (Float.ofNat c / Float.ofNat n).toModel.unpack = true
      rwa [hunpack]
    · exact hexact ▸ hround.nonneg
    · exact hexact ▸ hle
    · exact hexact ▸ hdist

/-- **Parts of a whole are in the order of the counts.** -/
theorem div_ofNat_lt_iff (hn : 0 < n) (hcn : c ≤ n) (hdn : d ≤ n) (hsmall : n < 2 ^ 53) :
    Float.ofNat c / Float.ofNat n < Float.ofNat d / Float.ofNat n ↔ c < d := by
  have hlt : ∀ {c d : ℕ}, c ≤ n → d ≤ n → c < d →
      exact (Float.ofNat c / Float.ofNat n) < exact (Float.ofNat d / Float.ofNat n) := by
    intro c d hcn hdn hcd
    have hn' : (0 : ℚ) < n := by exact_mod_cast hn
    have hnear := (abs_lt.1 (exact_div_ofNat hn hcn hsmall).2).2
    have hnear' := (abs_lt.1 (exact_div_ofNat hn hdn hsmall).2).1
    have hcount : (c : ℚ) / n + 1 / n ≤ d / n := by
      rw [← add_div]
      gcongr
      exact_mod_cast hcd
    have hhalf : (1 : ℚ) / (2 * n) = 1 / n / 2 := by rw [div_div, mul_comm]
    linarith
  rw [(exact_div_ofNat hn hcn hsmall).1.lt_iff (exact_div_ofNat hn hdn hsmall).1]
  rcases lt_trichotomy c d with h | rfl | h
  · exact iff_of_true (hlt hcn hdn h) h
  · exact iff_of_false (lt_irrefl _) (lt_irrefl _)
  · exact iff_of_false (hlt hdn hcn h).not_gt h.not_gt

/-! ## Great counts -/

/-- **The quotient of two positive counts of at most 64 digits is positive.**

**Proof sketch.** Both counts are converted to numbers between one and `2 ^ 64`, so their quotient
is far from the least power of two. -/
theorem zero_lt_div_ofNat (hc : 0 < c) (hcword : c < 2 ^ 64) (hn : 0 < n) (hnword : n < 2 ^ 64) :
    0 < Float.ofNat c / Float.ofNat n := by
  obtain ⟨m, e, hm, hu, hm52, hm53, hm1, -⟩ := exists_unpack_ofNat hc hcword
  obtain ⟨k, d, hk, hv, hk52, hk53, hk1, hk64⟩ := exists_unpack_ofNat hn hnword
  have he : -53 < e := neg_lt_exponent hm53 hm1
  have hd : d ≤ 64 := exponent_le hk hk64
  have hq : (2 : ℚ) ^ (-1074 : ℤ) ≤ m * 2 ^ e / (k * 2 ^ d) := by
    calc (2 : ℚ) ^ (-1074 : ℤ) ≤ 2 ^ (-64 : ℤ) := zpow_le_zpow_right₀ one_le_two (by decide)
      _ = 1 / 2 ^ (64 : ℤ) := by rw [zpow_neg, one_div]
      _ ≤ m * 2 ^ e / (k * 2 ^ d) := by gcongr
  obtain ⟨hround, hform, -⟩ : IsRounded (m * 2 ^ e / (k * 2 ^ d)) (value (UnpackedFloat.div
      .binary64 (.finite .positive m e hm) (.finite .positive k d hk))) ∧ _ :=
    isRounded_div hm52 hm53 hk52 hk53 (by omega)
  refine zero_lt_of_isPositive ?_
  show IsPositive (Float.Model.pack (UnpackedFloat.div .binary64
    (Float.ofNat c).toModel.unpack (Float.ofNat n).toModel.unpack)).unpack
  rw [hu, hv]
  exact isPositive_unpack_pack ⟨isPositive_of_value_pos (hround.pos hq), hform⟩

end ModuleRecovery.Number
