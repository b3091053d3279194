import ModuleRecovery.Proofs.Number.Order

set_option relaxedAutoImplicit false
set_option autoImplicit false

/-!
# Rounding is monotone

The result of an operation on floating-point numbers is the exact result, rounded: cut off
behind 53 digits or at the least exponent, and rounded to the nearest mantissa, of two
equally near the even one. Rounding never turns the order of two numbers round.

## Main definitions

* `ModuleRecovery.Number.IsNearest` — the nearest natural number.
* `ModuleRecovery.Number.Describes` — what the two bits behind a mantissa say.
* `ModuleRecovery.Number.lastExponent` — where a number is cut off.
* `ModuleRecovery.Number.IsRounded` — a rational number and what rounding makes of it.

## Main results

* `ModuleRecovery.Number.roundWithAccuracy_spec`, `ModuleRecovery.Number.round_spec` — the
  mantissa and the exponent of a rounded number.
* `ModuleRecovery.Number.round_mono`, `ModuleRecovery.Number.normalize_mono` — rounding is
  monotone.
* `ModuleRecovery.Number.IsRounded.eq_natCast`, `ModuleRecovery.Number.IsRounded.abs_sub_le` —
  rounding changes no natural number of 53 digits, and hardly any number below one.
* `ModuleRecovery.Number.IsRounded.pos` — only a number below the least power of two is rounded to
  zero.
* `ModuleRecovery.Number.unpack_pack` — a number of the format survives encoding.
-/

namespace ModuleRecovery.Number

open Float.Model Float.Model.UnpackedFloat

/-! ## The nearest natural number -/

/-- `r` is a natural number nearest to `q`, and half-way between two it is the even one. -/
def IsNearest (q : ℚ) (r : ℕ) : Prop :=
  r - 1 / 2 ≤ q ∧ q ≤ r + 1 / 2 ∧ (q = r - 1 / 2 ∨ q = r + 1 / 2 → Even r)

/-- Nearest natural numbers are in the order of the numbers they are nearest to.

**Proof sketch.** If the smaller number had the greater neighbour, both would lie half-way
between two successive natural numbers. Then both neighbours would be even. -/
theorem IsNearest.mono {p q : ℚ} {r s : ℕ} (hp : IsNearest p r) (hq : IsNearest q s)
    (h : p ≤ q) : r ≤ s := by
  by_contra hlt
  have hrs : (s : ℚ) + 1 ≤ r := by exact_mod_cast Nat.lt_of_not_le hlt
  have hp' : p = r - 1 / 2 := by linarith [hp.1, hq.2.1]
  have hq' : q = s + 1 / 2 := by linarith [hp.1, hq.2.1]
  have hr : r = s + 1 := by
    have : (r : ℚ) = s + 1 := by linarith [hp.1, hq.2.1]
    exact_mod_cast this
  have heven := hp.2.2 (Or.inl hp')
  rw [hr, Nat.even_add_one] at heven
  exact heven (hq.2.2 (Or.inr hq'))

/-- A natural number is nearest to itself. -/
theorem IsNearest.eq_of_natCast {k r : ℕ} (h : IsNearest k r) : r = k := by
  have hle : (r : ℚ) < k + 1 := by linarith [h.1]
  have hge : (k : ℚ) < r + 1 := by linarith [h.2.1]
  have hle' : r < k + 1 := by exact_mod_cast hle
  have hge' : k < r + 1 := by exact_mod_cast hge
  omega

/-! ## The bits behind a mantissa -/

/-- The number spelled by a mantissa and the bit of one half behind it. -/
def halves (em : ExtendedMantissa) : ℚ :=
  em.mantissa + if em.roundBit then 1 / 2 else 0

/-- The bits describe `q`: they spell it up to less than one half, and the last bit says
whether something is missing. -/
structure Describes (em : ExtendedMantissa) (q : ℚ) : Prop where
  /-- The bits do not spell more than `q`. -/
  le : halves em ≤ q
  /-- Less than one half is missing. -/
  lt : q < halves em + 1 / 2
  /-- The last bit tells whether something is missing. -/
  sticky : em.stickyBit = true ↔ halves em < q

/-- A mantissa with nothing behind it describes itself. -/
theorem describes_exact (m : ℕ) : Describes (.ofMantissaAndAccuracy m .exact) m := by
  constructor <;> simp [halves, ExtendedMantissa.ofMantissaAndAccuracy]

/-- Dropping the last digit of the mantissa describes half the number. -/
theorem Describes.shiftRightOne {em : ExtendedMantissa} {q : ℚ} (h : Describes em q) :
    Describes em.shiftRightOne (q / 2) := by
  obtain ⟨hle, hlt, hs⟩ := h
  have hhalf : halves em.shiftRightOne = em.mantissa / 2 := by
    have hdm : ((em.mantissa % 2 : ℕ) : ℚ) + 2 * ((em.mantissa / 2 : ℕ) : ℚ) = em.mantissa := by
      exact_mod_cast Nat.mod_add_div em.mantissa 2
    rcases Nat.mod_two_eq_zero_or_one em.mantissa with h | h <;>
      simp only [halves, ExtendedMantissa.shiftRightOne, h] at hdm ⊢ <;>
      norm_num at hdm ⊢ <;> linarith
  have hm : (em.mantissa : ℚ) ≤ halves em ∧ halves em ≤ em.mantissa + 1 / 2 := by
    unfold halves
    constructor <;> split <;> linarith
  refine ⟨by rw [hhalf]; linarith [hm.1], by rw [hhalf]; linarith [hm.2], ?_⟩
  rw [hhalf]
  simp only [ExtendedMantissa.shiftRightOne, Bool.or_eq_true, hs]
  constructor
  · rintro (hr | hr)
    · have : halves em = em.mantissa + 1 / 2 := by simp [halves, hr]
      linarith
    · linarith [hm.1]
  · intro hlt'
    by_cases hr : em.roundBit = true
    · exact Or.inl hr
    · have : halves em = em.mantissa := by simp [halves, hr]
      exact Or.inr (by linarith)

/-- Dropping the last digits describes the number divided by a power of two. -/
theorem Describes.shiftRight {em : ExtendedMantissa} {q : ℚ} (h : Describes em q) (k : ℕ) :
    Describes (em >>> k) (q / 2 ^ k) := by
  induction k with
  | zero => simpa [HShiftRight.hShiftRight, Nat.repeat] using h
  | succ k ih =>
    have := ih.shiftRightOne
    rwa [div_div, ← pow_succ] at this

/-- The rounded mantissa is nearest to the number described. -/
theorem Describes.isNearest {em : ExtendedMantissa} {q : ℚ} (h : Describes em q) :
    IsNearest q em.roundedMantissa := by
  obtain ⟨m, r, s⟩ := em
  obtain ⟨hle, hlt, hs⟩ := h
  cases r <;> cases s <;>
    simp only [halves, ExtendedMantissa.roundedMantissa, ExtendedMantissa.accuracy,
      Accuracy.roundToNearestEven, Bool.false_eq_true, if_false, if_true, false_iff, true_iff,
      not_lt, IsNearest] at *
  · refine ⟨by linarith, by linarith, fun h => ?_⟩
    rcases h with h | h <;> linarith
  · refine ⟨by linarith, by linarith, fun h => ?_⟩
    rcases h with h | h <;> linarith
  · -- half-way: the rule picks the even neighbour
    have hq : q = m + 1 / 2 := le_antisymm hs hle
    rcases Nat.mod_two_eq_zero_or_one m with hm | hm
    · rw [hm]
      exact ⟨by push_cast; linarith, by push_cast; linarith, fun _ => by
        rw [Nat.add_zero, Nat.even_iff, hm]⟩
    · rw [hm]
      exact ⟨by push_cast; linarith, by push_cast; linarith, fun _ => by
        rw [Nat.even_iff]; omega⟩
  · refine ⟨by push_cast; linarith, by push_cast; linarith, fun h => ?_⟩
    push_cast at h
    rcases h with h | h <;> linarith

/-- Rounding keeps a mantissa or adds one to it. -/
theorem mantissa_le_roundedMantissa (em : ExtendedMantissa) :
    em.mantissa ≤ em.roundedMantissa ∧ em.roundedMantissa ≤ em.mantissa + 1 := by
  obtain ⟨m, r, s⟩ := em
  cases r <;> cases s <;>
    simp only [ExtendedMantissa.roundedMantissa, ExtendedMantissa.accuracy,
      Accuracy.roundToNearestEven] <;> omega

/-- Dropping the last digits of a mantissa divides it. -/
theorem mantissa_shiftRight (em : ExtendedMantissa) (k : ℕ) :
    (em >>> k).mantissa = em.mantissa / 2 ^ k := by
  induction k with
  | zero => simp [HShiftRight.hShiftRight, Nat.repeat]
  | succ k ih =>
    show (em >>> k).mantissa / 2 = _
    rw [ih, Nat.div_div_eq_div_mul, pow_succ]

@[simp] theorem mantissa_ofMantissaAndAccuracy (m : ℕ) (acc : Accuracy) :
    (ExtendedMantissa.ofMantissaAndAccuracy m acc).mantissa = m := by
  rcases acc with _ | _ | _ | _ <;> rfl

/-! ## Where a number is cut off -/

/-- The exponent of the last digit that is kept of `m * 2 ^ e`. -/
def lastExponent (m : ℕ) (e : ℤ) : ℤ :=
  Format.binary64.targetExponent (totalExponent m e)

theorem lastExponent_eq (m : ℕ) (e : ℤ) : lastExponent m e = max (m.log2 + e - 52) (-1074) := by
  have hmin : Format.binary64.minExponent = -1074 := by decide
  simp only [lastExponent, Format.targetExponent, totalExponent, hmin, Format.mantissaBits]
  push_cast
  congr 1
  ring

/-- Moving the digits and the exponent against each other keeps the place of the cut. -/
theorem lastExponent_shiftLeft {m : ℕ} (hm : m ≠ 0) (e : ℤ) (k : ℕ) :
    lastExponent (m <<< k) (e - k) = lastExponent m e := by
  have hlog : (m <<< k).log2 = m.log2 + k := by
    rw [Nat.shiftLeft_eq, Nat.log2_eq_iff (by positivity), add_right_comm, pow_add, pow_add _ _ k]
    exact ⟨Nat.mul_le_mul_right _ (Nat.log2_self_le hm),
      Nat.mul_lt_mul_of_pos_right Nat.lt_log2_self (by positivity)⟩
  rw [lastExponent_eq, lastExponent_eq, hlog]
  push_cast
  congr 1
  ring

/-- Greater numbers are not cut off further down. -/
theorem lastExponent_mono {m n : ℕ} {d e : ℤ} (hm : m ≠ 0) (h : (m : ℚ) * 2 ^ d ≤ n * 2 ^ e) :
    lastExponent m d ≤ lastExponent n e := by
  have hlo : (2 : ℚ) ^ (m.log2 : ℤ) ≤ m := by exact_mod_cast Nat.log2_self_le hm
  have hhi : (n : ℚ) < 2 ^ ((n.log2 + 1 : ℕ) : ℤ) := by
    exact_mod_cast (Nat.lt_log2_self : n < 2 ^ (n.log2 + 1))
  have hpow : (2 : ℚ) ^ (m.log2 + d) < 2 ^ (((n.log2 + 1 : ℕ) : ℤ) + e) := by
    calc (2 : ℚ) ^ (m.log2 + d) = 2 ^ (m.log2 : ℤ) * 2 ^ d := zpow_add₀ two_ne_zero _ _
      _ ≤ m * 2 ^ d := by gcongr
      _ ≤ n * 2 ^ e := h
      _ < 2 ^ ((n.log2 + 1 : ℕ) : ℤ) * 2 ^ e := by gcongr
      _ = _ := (zpow_add₀ two_ne_zero _ _).symm
  have hlog := (zpow_lt_zpow_iff_right₀ (one_lt_two : (1 : ℚ) < 2)).1 hpow
  rw [lastExponent_eq, lastExponent_eq]
  omega

/-- What is left of a mantissa has at most 53 digits, and fewer only at the least exponent. -/
theorem div_two_pow_bounds {m : ℕ} {e : ℤ} (hm : m ≠ 0) (he : e ≤ lastExponent m e) :
    m / 2 ^ (lastExponent m e - e).toNat < 2 ^ 53 ∧
      (lastExponent m e = -1074 ∨ 2 ^ 52 ≤ m / 2 ^ (lastExponent m e - e).toNat) := by
  have hlo := Nat.log2_self_le hm
  have hhi : m < 2 ^ (m.log2 + 1) := Nat.lt_log2_self
  have ht := lastExponent_eq m e
  generalize hk : (lastExponent m e - e).toNat = k
  constructor
  · rw [Nat.div_lt_iff_lt_mul (by positivity), ← pow_add]
    exact hhi.trans_le (Nat.pow_le_pow_right two_pos (by omega))
  · by_cases h : lastExponent m e = -1074
    · exact Or.inl h
    · right
      rw [Nat.le_div_iff_mul_le (by positivity), ← pow_add]
      exact (Nat.pow_le_pow_right two_pos (by omega)).trans hlo

theorem shiftToTargetExponent_eq (m : ℕ) (e : ℤ) (acc : Accuracy) :
    shiftToTargetExponent .binary64 m e acc =
      (ExtendedMantissa.ofMantissaAndAccuracy m acc >>> (lastExponent m e - e).toNat,
        e + (lastExponent m e - e).toNat) := rfl

/-- Nothing is cut off a mantissa of at most 53 digits. -/
theorem shiftToTargetExponent_of_lt {m : ℕ} {e : ℤ} (hm : m < 2 ^ 53) (he : -1074 ≤ e) :
    shiftToTargetExponent .binary64 m e .exact = (.ofMantissaAndAccuracy m .exact, e) := by
  have hlog : m.log2 ≤ 52 := by
    by_cases h0 : m = 0
    · simp [h0]
    · have := (Nat.log2_lt h0).2 hm
      omega
  have hk : (lastExponent m e - e).toNat = 0 := by
    rw [lastExponent_eq]
    omega
  rw [shiftToTargetExponent_eq, hk]
  simp [HShiftRight.hShiftRight, Nat.repeat]

/-- A mantissa that rounding has made one digit too long loses a zero. -/
theorem shiftToTargetExponent_two_pow {e : ℤ} (he : -1074 ≤ e) :
    shiftToTargetExponent .binary64 (2 ^ 53) e .exact =
      (.ofMantissaAndAccuracy (2 ^ 52) .exact, e + 1) := by
  have hk : (lastExponent (2 ^ 53) e - e).toNat = 1 := by
    rw [lastExponent_eq, Nat.log2_two_pow]
    omega
  rw [shiftToTargetExponent_eq, hk]
  rfl

/-! ## Rounding -/

/-- **A rounded number.** Cut off at its last exponent, it is the nearest mantissa there; it is
finite and in the format.

**Proof sketch.** The digits cut off leave the two bits that decide the rounding, and the
rounded mantissa is the nearest one. It has at most 53 digits, or is the next power of two,
which is written with an exponent greater by one. -/
theorem roundWithAccuracy_spec {s : Sign} {m : ℕ} {e : ℤ} {acc : Accuracy} {q : ℚ} (hm : m ≠ 0)
    (he : e ≤ lastExponent m e) (hq : Describes (.ofMantissaAndAccuracy m acc) q) :
    ∃ r : ℕ, IsNearest (q * 2 ^ (e - lastExponent m e)) r ∧ r ≤ 2 ^ 53 ∧
      (lastExponent m e = -1074 ∨ 2 ^ 52 ≤ r) ∧
      value (roundWithAccuracy .binary64 s m e acc) = s.apply r * 2 ^ lastExponent m e ∧
      InFormat (roundWithAccuracy .binary64 s m e acc) ∧
      (roundWithAccuracy .binary64 s m e acc).isFinite = true := by
  obtain ⟨hlt, hge⟩ := div_two_pow_bounds hm he
  have ht : -1074 ≤ lastExponent m e := by
    rw [lastExponent_eq]
    omega
  have hsum : e + (lastExponent m e - e).toNat = lastExponent m e := by omega
  set em := ExtendedMantissa.ofMantissaAndAccuracy m acc >>> (lastExponent m e - e).toNat with hem
  have hmant : em.mantissa = m / 2 ^ (lastExponent m e - e).toNat := by
    rw [hem, mantissa_shiftRight, mantissa_ofMantissaAndAccuracy]
  have hr := mantissa_le_roundedMantissa em
  have hnear : IsNearest (q * 2 ^ (e - lastExponent m e)) em.roundedMantissa := by
    have h := (hq.shiftRight (lastExponent m e - e).toNat).isNearest
    have hpow : q * 2 ^ (e - lastExponent m e) = q / 2 ^ (lastExponent m e - e).toNat := by
      rw [show e - lastExponent m e = -((lastExponent m e - e).toNat : ℤ) by omega, zpow_neg,
        zpow_natCast, div_eq_mul_inv]
    rwa [hpow]
  have hround : roundWithAccuracy .binary64 s m e acc =
      let p := shiftToTargetExponent .binary64 em.roundedMantissa (lastExponent m e) .exact
      if h : p.1.mantissa = 0 then .zero s
      else .finite s p.1.mantissa p.2 (Nat.pos_of_ne_zero h) := by
    simp only [roundWithAccuracy, shiftToTargetExponent_eq m e acc, hsum]
    rfl
  refine ⟨em.roundedMantissa, hnear, by omega, by omega, ?_⟩
  rcases Nat.lt_or_ge em.roundedMantissa (2 ^ 53) with h | h
  · rw [hround, shiftToTargetExponent_of_lt h ht]
    simp only [mantissa_ofMantissaAndAccuracy]
    split
    · rename_i h0
      rw [h0]
      refine ⟨?_, trivial, rfl⟩
      cases s <;> simp [value, Sign.apply]
    · exact ⟨rfl, ⟨h, ht, by omega⟩, rfl⟩
  · have heq : em.roundedMantissa = 2 ^ 53 := by omega
    rw [hround, heq, shiftToTargetExponent_two_pow ht]
    simp only [mantissa_ofMantissaAndAccuracy]
    rw [dif_neg (by decide)]
    refine ⟨?_, ⟨by decide, by omega, Or.inl le_rfl⟩, rfl⟩
    simp only [value]
    rw [zpow_add_one₀ two_ne_zero]
    cases s <;> simp only [Sign.apply] <;> push_cast <;> ring

/-- The number `m * 2 ^ e`, rounded. -/
theorem round_spec {s : Sign} {m : ℕ} {e : ℤ} (hm : m ≠ 0) :
    ∃ r : ℕ, IsNearest (m * 2 ^ (e - lastExponent m e)) r ∧ r ≤ 2 ^ 53 ∧
      (lastExponent m e = -1074 ∨ 2 ^ 52 ≤ r) ∧
      value (round .binary64 s m e) = s.apply r * 2 ^ lastExponent m e ∧
      InFormat (round .binary64 s m e) ∧ (round .binary64 s m e).isFinite = true := by
  set k := (e - lastExponent m e).toNat with hk
  have hlast := lastExponent_shiftLeft hm e k
  have hm' : m <<< k ≠ 0 := by
    rw [Nat.shiftLeft_eq]
    positivity
  have hval : ((m <<< k : ℕ) : ℚ) * 2 ^ (e - k - lastExponent m e) =
      m * 2 ^ (e - lastExponent m e) := by
    rw [Nat.shiftLeft_eq]
    push_cast
    rw [mul_assoc, ← zpow_natCast, ← zpow_add₀ two_ne_zero]
    congr 2
    ring
  have h := roundWithAccuracy_spec (s := s) hm' (by rw [hlast]; omega) (describes_exact (m <<< k))
  rw [hlast, hval] at h
  exact h

/-- **Rounding is monotone.**

**Proof sketch.** Two numbers cut off at the same place have nearest mantissas in their order.
Otherwise the greater number is cut off higher up, where its mantissa has 53 digits: it then
stays above every rounded number that is cut off further down. -/
theorem round_mono {m n : ℕ} {d e : ℤ} (hm : m ≠ 0) (hn : n ≠ 0)
    (h : (m : ℚ) * 2 ^ d ≤ n * 2 ^ e) :
    value (round .binary64 .positive m d) ≤ value (round .binary64 .positive n e) := by
  obtain ⟨r, hr, hrle, -, hrv, -⟩ := round_spec (s := .positive) (e := d) hm
  obtain ⟨t, ht, -, htge, htv, -⟩ := round_spec (s := .positive) (e := e) hn
  rw [hrv, htv]
  simp only [Sign.apply, Int.cast_natCast]
  rcases (lastExponent_mono hm h).eq_or_lt with heq | hlt
  · have hle : r ≤ t := hr.mono ht (by
      rw [heq, zpow_sub₀ two_ne_zero, zpow_sub₀ two_ne_zero, ← mul_div_assoc, ← mul_div_assoc]
      gcongr)
    rw [heq]
    gcongr
  · have hmin : -1074 ≤ lastExponent m d := by
      rw [lastExponent_eq]
      omega
    have htge : (2 : ℚ) ^ (52 : ℤ) ≤ t := by
      exact_mod_cast htge.resolve_left (by omega)
    have hrle : (r : ℚ) ≤ 2 ^ (53 : ℤ) := by exact_mod_cast hrle
    calc (r : ℚ) * 2 ^ lastExponent m d ≤ 2 ^ (53 : ℤ) * 2 ^ lastExponent m d := by gcongr
      _ = 2 ^ (53 + lastExponent m d) := (zpow_add₀ two_ne_zero _ _).symm
      _ ≤ 2 ^ (52 + lastExponent n e) := zpow_le_zpow_right₀ one_le_two (by omega)
      _ = 2 ^ (52 : ℤ) * 2 ^ lastExponent n e := zpow_add₀ two_ne_zero _ _
      _ ≤ t * 2 ^ lastExponent n e := by gcongr

theorem normalize_natCast (m : ℕ) (e : ℤ) : normalize .binary64 m e .positive =
    if m = 0 then .zero .positive else round .binary64 .positive m e := by
  rcases Nat.eq_zero_or_pos m with rfl | hm
  · rfl
  · have h : compare (m : ℤ) 0 = .gt := compare_gt_iff_gt.2 (by omega)
    rw [UnpackedFloat.normalize, h, if_neg hm.ne']
    rfl

/-- Rounding is monotone, from zero on. -/
theorem normalize_mono {m n : ℕ} {d e : ℤ} (h : (m : ℚ) * 2 ^ d ≤ n * 2 ^ e) :
    value (normalize .binary64 m d .positive) ≤ value (normalize .binary64 n e .positive) := by
  rw [normalize_natCast, normalize_natCast]
  by_cases hm : m = 0
  · by_cases hn : n = 0
    · rw [if_pos hm, if_pos hn]
    · obtain ⟨r, -, -, -, hv, -⟩ := round_spec (s := .positive) (e := e) hn
      rw [if_pos hm, if_neg hn, hv]
      exact mul_nonneg (by simp [Sign.apply]) (by positivity)
  · have hn : n ≠ 0 := by
      rintro rfl
      have : (0 : ℚ) < m * 2 ^ d := by positivity
      simp only [Nat.cast_zero, zero_mul] at h
      linarith
    rw [if_neg hm, if_neg hn]
    exact round_mono hm hn h

/-- What rounding makes of a natural multiple of a power of two is finite and in the format. -/
theorem normalize_natCast_finite (m : ℕ) (e : ℤ) :
    (normalize .binary64 m e .positive).isFinite = true ∧
      InFormat (normalize .binary64 m e .positive) := by
  rw [normalize_natCast]
  split
  · exact ⟨rfl, trivial⟩
  · rename_i hm
    obtain ⟨r, -, -, -, -, hc, hf⟩ := round_spec (s := .positive) (e := e) hm
    exact ⟨hf, hc⟩

theorem value_normalize_one : value (normalize .binary64 (1 : ℕ) 0 .positive) = 1 := by
  show ((2 ^ 52 : ℕ) : ℚ) * 2 ^ (-52 : ℤ) = 1
  norm_num

/-! ## Rounded rational numbers -/

/-- `x` is the number `q` without a sign, rounded to the nearest multiple of a power of two that
leaves it 53 digits, or to the nearest multiple of the least power of two. -/
def IsRounded (q x : ℚ) : Prop :=
  ∃ (r : ℕ) (k : ℤ), IsNearest (q * 2 ^ (-k)) r ∧ x = r * 2 ^ k ∧ (2 ^ (k + 52) ≤ q ∨ k = -1074)

/-- Before the place where a number is cut off stand 53 digits, unless it is the least exponent. -/
theorem two_zpow_lastExponent_le {m : ℕ} {e : ℤ} {q : ℚ} (hm : m ≠ 0) (hq : (m : ℚ) ≤ q) :
    2 ^ (lastExponent m e + 52) ≤ q * 2 ^ e ∨ lastExponent m e = -1074 := by
  rcases max_choice (m.log2 + e - 52) (-1074) with h | h
  · have hlog : (2 : ℚ) ^ (m.log2 : ℤ) ≤ m := by exact_mod_cast Nat.log2_self_le hm
    have hexp : lastExponent m e + 52 = m.log2 + e := by
      rw [lastExponent_eq, h]
      ring
    left
    calc (2 : ℚ) ^ (lastExponent m e + 52) = 2 ^ (m.log2 : ℤ) * 2 ^ e := by
          rw [hexp, zpow_add₀ two_ne_zero]
      _ ≤ q * 2 ^ e := by gcongr; exact hlog.trans hq
  · right
    rw [lastExponent_eq, h]

theorem isRounded_roundWithAccuracy {m : ℕ} {e : ℤ} {acc : Accuracy} {q : ℚ} (hm : m ≠ 0)
    (he : e ≤ lastExponent m e) (hq : Describes (.ofMantissaAndAccuracy m acc) q) :
    IsRounded (q * 2 ^ e) (value (roundWithAccuracy .binary64 .positive m e acc)) := by
  obtain ⟨r, hr, -, -, hval, -⟩ := roundWithAccuracy_spec (s := .positive) hm he hq
  have hmq : (m : ℚ) ≤ q := by
    refine le_trans ?_ hq.le
    rw [halves, mantissa_ofMantissaAndAccuracy]
    split <;> linarith
  refine ⟨r, lastExponent m e, ?_, ?_, two_zpow_lastExponent_le hm hmq⟩
  · rwa [mul_assoc, ← zpow_add₀ two_ne_zero, ← sub_eq_add_neg]
  · rw [hval, Sign.apply, Int.cast_natCast]

theorem isRounded_round {m : ℕ} {e : ℤ} (hm : m ≠ 0) :
    IsRounded (m * 2 ^ e) (value (round .binary64 .positive m e)) := by
  obtain ⟨r, hr, -, -, hval, -⟩ := round_spec (s := .positive) (e := e) hm
  refine ⟨r, lastExponent m e, ?_, ?_, two_zpow_lastExponent_le hm le_rfl⟩
  · rwa [mul_assoc, ← zpow_add₀ two_ne_zero, ← sub_eq_add_neg]
  · rw [hval, Sign.apply, Int.cast_natCast]

namespace IsRounded

variable {q x : ℚ}

theorem nonneg (h : IsRounded q x) : 0 ≤ x := by
  obtain ⟨r, k, -, rfl, -⟩ := h
  positivity

/-- **A number of at least the least power of two is not rounded to zero.** -/
theorem pos (h : IsRounded q x) (hq : 2 ^ (-1074 : ℤ) ≤ q) : 0 < x := by
  obtain ⟨r, k, ⟨-, hhi, -⟩, rfl, hk⟩ := h
  have hge : (2 : ℚ) ^ k ≤ q := by
    rcases hk with hk | rfl
    · exact (zpow_le_zpow_right₀ one_le_two (by omega)).trans hk
    · exact hq
  have hone : 1 ≤ q * 2 ^ (-k) := by
    calc (1 : ℚ) = 2 ^ k * 2 ^ (-k) := by
          rw [← zpow_add₀ two_ne_zero, add_neg_cancel, zpow_zero]
      _ ≤ q * 2 ^ (-k) := by gcongr
  have hr : (0 : ℚ) < r := by linarith
  positivity

/-- A number of `p` digits is rounded at most `53 - p` digits behind the point. -/
theorem exists_of_lt {p : ℤ} (h : IsRounded q x) (hp : -1021 ≤ p) (hq : q < 2 ^ p) :
    ∃ (r : ℕ) (k : ℤ), k ≤ p - 53 ∧ IsNearest (q * 2 ^ (-k)) r ∧ x = r * 2 ^ k := by
  obtain ⟨r, k, hr, hx, hk | rfl⟩ := h
  · have hlt : k + 52 < p := (zpow_lt_zpow_iff_right₀ one_lt_two).1 (hk.trans_lt hq)
    exact ⟨r, k, by omega, hr, hx⟩
  · exact ⟨r, -1074, by omega, hr, hx⟩

/-- **A natural number of at most 53 digits is not changed.** -/
theorem eq_natCast {n : ℕ} (h : IsRounded n x) (hn : n < 2 ^ 53) : x = n := by
  have hn' : (n : ℚ) < 2 ^ (53 : ℤ) := by exact_mod_cast hn
  obtain ⟨r, k, hk, hr, rfl⟩ := h.exists_of_lt (by decide) hn'
  have hpow : (2 : ℚ) ^ (-k) = (2 ^ (-k).toNat : ℕ) := by
    rw [Nat.cast_pow, Nat.cast_ofNat, ← zpow_natCast]
    congr 1
    omega
  rw [hpow, ← Nat.cast_mul] at hr
  rw [hr.eq_of_natCast, Nat.cast_mul, ← hpow, mul_assoc, ← zpow_add₀ two_ne_zero, neg_add_cancel,
    zpow_zero, mul_one]

/-- **A number below one is changed by at most half of the 53rd digit.** -/
theorem abs_sub_le (h : IsRounded q x) (hq : q < 1) : |x - q| ≤ 2 ^ (-54 : ℤ) := by
  obtain ⟨r, k, hk, ⟨hlo, hhi, -⟩, rfl⟩ := h.exists_of_lt (p := 0) (by decide) (by simpa using hq)
  have hq' : q = q * 2 ^ (-k) * 2 ^ k := by
    rw [mul_assoc, ← zpow_add₀ two_ne_zero, neg_add_cancel, zpow_zero, mul_one]
  have hdist : |(r : ℚ) - q * 2 ^ (-k)| ≤ 1 / 2 := by
    rw [abs_le]
    constructor <;> linarith
  calc |(r : ℚ) * 2 ^ k - q| = |(r : ℚ) - q * 2 ^ (-k)| * 2 ^ k := by
        conv_lhs => rw [hq']
        rw [← sub_mul, abs_mul, abs_of_pos (by positivity : (0 : ℚ) < 2 ^ k)]
    _ ≤ 1 / 2 * 2 ^ k := by gcongr
    _ ≤ 1 / 2 * 2 ^ (-53 : ℤ) := by gcongr; exacts [one_le_two, by omega]
    _ = 2 ^ (-54 : ℤ) := by norm_num

end IsRounded
/-! ## Encoding -/

/-- A number up to a power of two has no greater exponent than the power. -/
theorem exponent_le {m : ℕ} {e k : ℤ} (hm : 0 < m) (h : (m : ℚ) * 2 ^ e ≤ 2 ^ k) : e ≤ k := by
  have hm' : (1 : ℚ) ≤ m := by exact_mod_cast hm
  have hle : (2 : ℚ) ^ e ≤ 2 ^ k := by
    calc (2 : ℚ) ^ e = 1 * 2 ^ e := (one_mul _).symm
      _ ≤ m * 2 ^ e := by gcongr
      _ ≤ 2 ^ k := h
  exact (zpow_le_zpow_iff_right₀ (one_lt_two : (1 : ℚ) < 2)).1 hle

/-- **A number of the format survives encoding**, unless its exponent is too great.

**Proof sketch.** A mantissa of 53 digits loses its leading digit, and its exponent field is
neither of the two special ones. A shorter mantissa belongs to the least exponent and is
stored as it is, in field zero. -/
theorem unpack_pack {u : UnpackedFloat} (hu : InFormat u)
    (hmax : ∀ s m e h, u = .finite s m e h → e ≤ 971) :
    UnpackedFloat.unpack .binary64 (UnpackedFloat.pack .binary64 u) = u := by
  have hbias : Format.binary64.exponentBias = 1023 := by decide
  have hbits : Format.binary64.mantissaBits = 53 := by decide
  cases u with
  | notANumber => rfl
  | infinity s => cases s <;> rfl
  | zero s => cases s <;> rfl
  | finite s m e h =>
    obtain ⟨hm, he, hc⟩ := hu
    have hmax := hmax s m e h rfl
    have hfield : (e + (1023 : ℕ) + (52 : ℕ)).toNat = (e + 1075).toNat := by omega
    have hsmall : ¬ 2 ^ 11 ≤ (e + 1075).toNat + 1 := by omega
    have hmant : (BitVec.ofNat 52 m).toNat = m % 2 ^ 52 := BitVec.toNat_ofNat ..
    have hexp : (BitVec.ofNat 11 (e + 1075).toNat).toNat = (e + 1075).toNat := by
      rw [BitVec.toNat_ofNat]
      omega
    simp only [UnpackedFloat.pack, hbits, hbias, hfield, if_neg hsmall]
    split
    · rename_i hlog
      have hfull : 2 ^ 52 ≤ m := by
        have := Nat.log2_self_le h.ne'
        rwa [show m.log2 = 52 by omega] at this
      have hones : BitVec.ofNat 11 (e + 1075).toNat ≠ -1#11 := fun heq => by
        have := congrArg BitVec.toNat heq
        rw [hexp] at this
        change _ = 2047 at this
        omega
      have hzero : BitVec.ofNat 11 (e + 1075).toNat ≠ 0#11 := fun heq => by
        have := congrArg BitVec.toNat heq
        rw [hexp] at this
        change _ = 0 at this
        omega
      have hfill : (1#1 ++ BitVec.ofNat 52 m : BitVec (1 + 52)).toNat = m := by
        rw [BitVec.toNat_append, ← Nat.shiftLeft_add_eq_or_of_lt (BitVec.isLt _), hmant]
        show 2 ^ 52 + _ = _
        omega
      simp only [UnpackedFloat.unpack, unpackExponent_packComponents,
        unpackMantissa_packComponents, unpackSign_packComponents, Sign.ofBitVec_toBitVec, hbias]
      simp only [hones, hzero, if_false, hfill, hexp]
      congr 1
      omega
    · rename_i hlog
      have hsub : m < 2 ^ 52 := by
        have := (Nat.log2_lt (n := m) (k := 53) h.ne').2 hm
        exact (Nat.log2_lt h.ne').1 (by omega)
      have hne : BitVec.ofNat 52 m ≠ 0#52 := fun heq => by
        have := congrArg BitVec.toNat heq
        rw [hmant] at this
        change _ = 0 at this
        omega
      have hrest : (BitVec.ofNat 52 m).toNat = m := by omega
      simp only [UnpackedFloat.unpack, unpackExponent_packComponents,
        unpackMantissa_packComponents, unpackSign_packComponents, Sign.ofBitVec_toBitVec, hbias]
      simp only [hne, hrest, show (0#11 : BitVec 11) ≠ -1#11 by decide, if_false, if_true,
        dite_false]
      obtain rfl : e = -1074 := by omega
      congr 1

/-- A number of the format between zero and a power of two survives encoding. -/
theorem unpack_pack_of_value_le {u : UnpackedFloat} (hu : InFormat u) (h0 : 0 ≤ value u) {k : ℤ}
    (hk : k ≤ 971) (hle : value u ≤ 2 ^ k) :
    UnpackedFloat.unpack .binary64 (UnpackedFloat.pack .binary64 u) = u := by
  refine unpack_pack hu ?_
  rintro s m e hm rfl
  obtain rfl := sign_eq_positive h0
  rw [value_finite_positive] at hle
  exact (exponent_le hm hle).trans hk

end ModuleRecovery.Number
