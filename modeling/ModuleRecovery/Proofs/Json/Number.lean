import Mathlib.Data.List.TakeDrop
import ModuleRecovery.Json.Reader
import ModuleRecovery.Json.Writer
import ModuleRecovery.Proofs.Decimal.Layout

set_option relaxedAutoImplicit false
set_option autoImplicit false

/-!
# Reading written numbers

A report writes a number with a point or an exponent. Such a text is split into the same parts
again, whatever follows it in a document. So what is read for a number depends on its text only.
It need not be the same number: the reader is not exact, and refuses what comes out too great.

## Main definitions

* `ModuleRecovery.EndsNumber` — nothing at the front of a text continues a number.
* `ModuleRecovery.NumberToken.IsText` — what may be written for the parts of a number.
* `ModuleRecovery.NumberToken.text` — the parts of a number, written one after the other.
* `ModuleRecovery.reread?` — what is read for the text of a number.

## Main results

* `ModuleRecovery.scanNumber_of_isText` — a number is split into its parts, however it is written.
* `ModuleRecovery.exists_token_write` — the text of a number consists of such parts.
* `ModuleRecovery.readNumber_write` — reading a number inside a document.
-/

namespace ModuleRecovery

/-- No digit stands at the front of a text. -/
def NoDigitAhead (s : List Char) : Prop :=
  ∀ c ∈ s.head?, c.isDigit = false

/-- Nothing at the front of a text continues a number. -/
structure EndsNumber (s : List Char) : Prop where
  /-- No further digit follows. -/
  noDigit : NoDigitAhead s
  /-- No point follows. -/
  noPoint : s.head? ≠ some '.'
  /-- No exponent follows. -/
  noExponent : s.head? ≠ some 'e' ∧ s.head? ≠ some 'E'

variable {digits rest : List Char} {t : NumberToken} {x : Float}

/-! ## Splitting a number -/

theorem span_digits (hdigits : ∀ c ∈ digits, c.isDigit = true) (hrest : NoDigitAhead rest) :
    (digits ++ rest).span Char.isDigit = (digits, rest) := by
  have hdrop : rest.dropWhile Char.isDigit = rest := by
    cases rest with
    | nil => rfl
    | cons c rest => exact List.dropWhile_cons_of_neg (by simpa using hrest c rfl)
  have htake : rest.takeWhile Char.isDigit = [] := by
    cases rest with
    | nil => rfl
    | cons c rest => exact List.takeWhile_cons_of_neg (by simpa using hrest c rfl)
  rw [List.span_eq_takeWhile_dropWhile, List.takeWhile_append_of_pos hdigits,
    List.dropWhile_append_of_pos hdigits, htake, hdrop, List.append_nil]

namespace NumberToken

/-- The digits before the point: zero alone, or digits that start with another one. -/
def IsWhole (digits : List Char) : Prop :=
  digits = ['0'] ∨ StartsNonzero digits

/-- The point and the digits after it, if there are any. -/
def placesText (places : List Char) : List Char :=
  if places = [] then [] else '.' :: places

/-- The exponent with its sign, if there is one. -/
def exponentPart : Option (Bool × List Char) → List Char
  | none => []
  | some (negative, digits) => 'e' :: (if negative then '-' else '+') :: digits

/-- What may be written for an exponent: nothing if there is none, and otherwise either letter with
its sign, which may be left out if it is a plus sign. -/
inductive IsExponentText : Option (Bool × List Char) → List Char → Prop
  /-- There is no exponent. -/
  | none : IsExponentText none []
  /-- The exponent is negative. -/
  | minus (digits : List Char) {mark : Char} (h : mark = 'e' ∨ mark = 'E') :
      IsExponentText (some (true, digits)) (mark :: '-' :: digits)
  /-- The exponent has a plus sign. -/
  | plus (digits : List Char) {mark : Char} (h : mark = 'e' ∨ mark = 'E') :
      IsExponentText (some (false, digits)) (mark :: '+' :: digits)
  /-- The exponent has no sign. -/
  | unsigned (digits : List Char) {mark : Char} (h : mark = 'e' ∨ mark = 'E') :
      IsExponentText (some (false, digits)) (mark :: digits)

/-- What may be written for the parts of a number. -/
inductive IsText (t : NumberToken) : List Char → Prop
  /-- The parts stand one after the other. -/
  | parts {s : List Char} (h : IsExponentText t.exponent s) :
      IsText t (signText t.negative ++ (t.whole ++ (placesText t.places ++ s)))

/-- The parts of a number, written one after the other. -/
def text (t : NumberToken) : List Char :=
  signText t.negative ++ (t.whole ++ (placesText t.places ++ exponentPart t.exponent))

/-- The parts are digits where digits belong. -/
structure WellFormed (t : NumberToken) : Prop where
  /-- The digits before the point are zero alone, or do not start with zero. -/
  whole : IsWhole t.whole
  /-- Behind the point stand digits. -/
  places : ∀ c ∈ t.places, c.isDigit = true
  /-- An exponent has digits, and nothing else. -/
  exponent : ∀ negative digits, t.exponent = some (negative, digits) →
    digits ≠ [] ∧ ∀ c ∈ digits, c.isDigit = true

end NumberToken

open NumberToken

theorem scanWhole_append (h : IsWhole digits) (hrest : NoDigitAhead rest) :
    scanWhole (digits ++ rest) = some (digits, rest) := by
  rcases h with rfl | ⟨⟨c, cs, rfl, hc⟩, hall⟩
  · have hhead : rest.head?.any Char.isDigit = false := by
      cases rest with
      | nil => rfl
      | cons c rest => simpa using hrest c rfl
    simp [scanWhole, hhead]
  · rw [List.cons_append, scanWhole, if_neg hc, if_pos (hall c (by simp)), ← List.cons_append,
      span_digits hall hrest]

theorem scanPlaces_append (h : ∀ c ∈ digits, c.isDigit = true) (hrest : NoDigitAhead rest)
    (hpoint : rest.head? ≠ some '.') :
    scanPlaces (placesText digits ++ rest) = some (digits, rest) := by
  unfold placesText
  split
  next hnil =>
    rw [List.nil_append, hnil]
    cases rest with
    | nil => rfl
    | cons c rest =>
      have hc : c ≠ '.' := by simpa using hpoint
      exact scanPlaces.eq_2 (c :: rest) fun s hs => hc (List.cons.inj hs).1
  next hne =>
    rw [List.cons_append, scanPlaces, span_digits h hrest]
    simp [hne]

theorem isExponentText_exponentPart (exponent : Option (Bool × List Char)) :
    IsExponentText exponent (exponentPart exponent) := by
  match exponent with
  | none => exact .none
  | some (true, digits) => exact .minus digits (.inl rfl)
  | some (false, digits) => exact .plus digits (.inl rfl)

/-- A digit is no sign. -/
theorem takeSign_digits (hne : digits ≠ []) (hall : ∀ c ∈ digits, c.isDigit = true) :
    takeSign (digits ++ rest) = (false, digits ++ rest) := by
  obtain ⟨c, cs, rfl⟩ := List.exists_cons_of_ne_nil hne
  have hc : c.isDigit = true := hall c List.mem_cons_self
  rw [List.cons_append]
  refine takeSign.eq_3 _ (fun s hs => ?_) fun s hs => ?_
  · rw [(List.cons.inj hs).1] at hc
    cases hc
  · rw [(List.cons.inj hs).1] at hc
    cases hc

theorem scanExponent_append {exponent : Option (Bool × List Char)} {s : List Char}
    (hs : IsExponentText exponent s) (h : ∀ negative digits, exponent = some (negative, digits) →
      digits ≠ [] ∧ ∀ c ∈ digits, c.isDigit = true) (hrest : EndsNumber rest) :
    scanExponent (s ++ rest) = some (exponent, rest) := by
  have hmark : ∀ {mark : Char}, mark = 'e' ∨ mark = 'E' →
      (mark = 'e' || mark = 'E') = true := by
    rintro mark (rfl | rfl) <;> rfl
  cases hs with
  | none =>
    rw [List.nil_append]
    cases rest with
    | nil => rfl
    | cons c rest =>
      have hc : ¬ (c = 'e' || c = 'E') = true := by simpa using hrest.noExponent
      rw [scanExponent, if_neg hc]
  | minus digits he =>
    obtain ⟨hne, hall⟩ := h _ _ rfl
    rw [List.cons_append, List.cons_append, scanExponent, if_pos (hmark he), takeSign]
    simp [span_digits hall hrest.noDigit, hne, -List.span_eq_takeWhile_dropWhile]
  | plus digits he =>
    obtain ⟨hne, hall⟩ := h _ _ rfl
    rw [List.cons_append, List.cons_append, scanExponent, if_pos (hmark he), takeSign]
    simp [span_digits hall hrest.noDigit, hne, -List.span_eq_takeWhile_dropWhile]
  | unsigned digits he =>
    obtain ⟨hne, hall⟩ := h _ _ rfl
    rw [List.cons_append, scanExponent, if_pos (hmark he), takeSign_digits hne hall]
    simp [span_digits hall hrest.noDigit, hne, -List.span_eq_takeWhile_dropWhile]

/-- What follows the places of a number neither continues them nor starts others. -/
theorem head?_exponentText_append {exponent : Option (Bool × List Char)} {s : List Char}
    (hs : IsExponentText exponent s) (hrest : EndsNumber rest) :
    ∀ c ∈ (s ++ rest).head?, c.isDigit = false ∧ c ≠ '.' := by
  have hmark : ∀ {mark : Char} {u : List Char}, mark = 'e' ∨ mark = 'E' →
      ∀ c ∈ (mark :: u).head?, c.isDigit = false ∧ c ≠ '.' := by
    rintro mark u he c hc
    obtain rfl : mark = c := by simpa using hc
    rcases he with rfl | rfl <;> decide
  cases hs with
  | none => exact fun c hc => ⟨hrest.noDigit c hc, fun hpoint => hrest.noPoint (hpoint ▸ hc)⟩
  | minus digits he => exact hmark he
  | plus digits he => exact hmark he
  | unsigned digits he => exact hmark he

/-- What follows the digits before the point does not continue them. -/
theorem noDigitAhead_placesText_append {exponent : Option (Bool × List Char)} {s : List Char}
    (hs : IsExponentText exponent s) (hrest : EndsNumber rest) :
    NoDigitAhead (placesText digits ++ (s ++ rest)) := by
  unfold placesText
  split
  · exact fun c hc => (head?_exponentText_append hs hrest c hc).1
  · intro c hc
    obtain rfl : '.' = c := by simpa using hc
    decide

theorem head?_of_isWhole (h : IsWhole digits) : (digits ++ rest).head? ≠ some '-' := by
  rcases h with rfl | ⟨⟨c, cs, rfl, -⟩, hall⟩
  · simp
  · intro hminus
    obtain rfl : c = '-' := by simpa using hminus
    simpa using hall '-' (by simp)

/-- **A number is split into its parts**, however it is written and whatever follows. -/
theorem scanNumber_of_isText {s : List Char} (h : t.WellFormed) (hs : t.IsText s)
    (hrest : EndsNumber rest) : scanNumber (s ++ rest) = some (t, rest) := by
  obtain ⟨hexponentText⟩ := hs
  next s =>
  have hafter := head?_exponentText_append hexponentText hrest
  have hexponent := scanExponent_append hexponentText h.exponent hrest
  have hplaces := scanPlaces_append h.places (fun c hc => (hafter c hc).1)
    (fun hpoint => (hafter '.' hpoint).2 rfl)
  have hwhole := scanWhole_append h.whole
    (@noDigitAhead_placesText_append t.places rest t.exponent s hexponentText hrest)
  obtain ⟨negative, whole, places, exponent⟩ := t
  cases negative with
  | true => simp [scanNumber, signText, hwhole, hplaces, hexponent]
  | false =>
    have hminus := @head?_of_isWhole whole (placesText places ++ (s ++ rest)) h.whole
    have htext : signText false ++ (whole ++ (placesText places ++ s)) ++ rest =
        whole ++ (placesText places ++ (s ++ rest)) := by
      simp [signText]
    rw [htext, scanNumber]
    · simp only [hwhole, hplaces, hexponent, Option.bind_eq_bind, Option.bind_some]
      rfl
    · intro s hs
      rw [hs] at hminus
      exact hminus rfl

/-- Whatever is written for a number starts with a sign or a digit. -/
theorem exists_eq_cons_of_isText {s : List Char} (h : t.WellFormed) (hs : t.IsText s) :
    ∃ c u, s = c :: u ∧ (c = '-' ∨ c.isDigit = true) := by
  obtain ⟨-⟩ := hs
  cases t.negative with
  | true => exact ⟨'-', _, rfl, .inl rfl⟩
  | false =>
    rcases h.whole with hwhole | ⟨⟨c, cs, hwhole, -⟩, hall⟩
    · rw [hwhole]
      exact ⟨'0', _, rfl, .inr rfl⟩
    · rw [hwhole] at hall ⊢
      exact ⟨c, _, rfl, .inr (hall c (by simp))⟩

/-- **A written number is split into its parts**, whatever follows. -/
theorem scanNumber_text (h : t.WellFormed) (hrest : EndsNumber rest) :
    scanNumber (t.text ++ rest) = some (t, rest) :=
  scanNumber_of_isText h (.parts (isExponentText_exponentPart t.exponent)) hrest

/-! ## The text of a number -/

/-- The text of a number without a sign, which has a point or an exponent. -/
def IsRealText (s : List Char) : Prop :=
  ∃ t : NumberToken, t.WellFormed ∧ t.negative = false ∧ t.text = s ∧
    (t.places ≠ [] ∨ t.exponent ≠ none)

/-- Digits with a point among, before or behind them are the text of a number. -/
theorem isRealText_positionalText (h : StartsNonzero digits) (k : Int) :
    IsRealText (positionalText ['.', '0'] digits k) := by
  have hnone : ∀ negative ds, (none : Option (Bool × List Char)) = some (negative, ds) →
      ds ≠ [] ∧ ∀ c ∈ ds, c.isDigit = true := fun _ _ heq => by cases heq
  have hzeros : ∀ n : Nat, ∀ c ∈ List.replicate n '0', c.isDigit = true := by
    intro n c hc
    rw [List.eq_of_mem_replicate hc]
    rfl
  unfold positionalText
  split
  next hk =>
    have hne : List.replicate k.natAbs '0' ++ digits ≠ [] := by simp [h.ne_nil]
    refine ⟨⟨false, ['0'], List.replicate k.natAbs '0' ++ digits, none⟩,
      ⟨.inl rfl, List.forall_mem_append.2 ⟨hzeros _, h.2⟩, hnone⟩, rfl, ?_, .inl hne⟩
    simp [text, signText, placesText, exponentPart, h.ne_nil]
  next hk =>
    split
    next hlen =>
      refine ⟨⟨false, digits ++ List.replicate (k.toNat - digits.length) '0', ['0'], none⟩,
        ⟨.inr (h.append (hzeros _)), by simp, hnone⟩, rfl, ?_, .inl (by simp)⟩
      simp [text, signText, placesText, exponentPart]
    next hlen =>
      have hne : digits.drop k.toNat ≠ [] := by
        rw [Ne, List.drop_eq_nil_iff]
        exact hlen
      refine ⟨⟨false, digits.take k.toNat, digits.drop k.toNat, none⟩,
        ⟨.inr (h.take (by omega)), fun c hc => h.2 c (List.mem_of_mem_drop hc), hnone⟩, rfl, ?_,
        .inl hne⟩
      simp only [text, signText, placesText, exponentPart, if_neg hne, Bool.false_eq_true,
        if_false, List.nil_append, List.append_nil]

/-- Digits with an exponent are the text of a number. -/
theorem isRealText_scientificText (h : StartsNonzero digits) (k : Int) :
    IsRealText (scientificText ['+'] digits k) := by
  refine ⟨⟨false, digits.take 1, digits.drop 1,
    some (decide (k - 1 < 0), decimalDigits (k - 1).natAbs)⟩,
    ⟨.inr (h.take one_ne_zero), fun c hc => h.2 c (List.mem_of_mem_drop hc), ?_⟩, rfl, ?_,
    .inr (by simp)⟩
  · rintro _ _ heq
    obtain ⟨-, rfl⟩ := Prod.mk.inj (Option.some.inj heq)
    exact ⟨Nat.toDigits_ne_nil, isDigit_of_mem_decimalDigits⟩
  · simp only [text, signText, placesText, exponentPart, scientificText, exponentText,
      List.isEmpty_iff, Bool.false_eq_true, if_false, List.nil_append, decide_eq_true_eq,
      List.append_assoc]
    split <;> split <;> rfl

/-- A report writes a decimal with a point or an exponent. -/
theorem isRealText_writeDecimal {d : Decimal} (h : d.digits ≠ 0 ∨ d = ⟨0, 0⟩) :
    IsRealText (NumberLayout.report.writeDecimal d) := by
  rcases h with h | rfl
  · have hdigits := (startsNonzero_decimalDigits h).dropTrailingZeros
    unfold NumberLayout.writeDecimal
    simp only
    split
    · exact isRealText_positionalText hdigits _
    · exact isRealText_scientificText hdigits _
  · exact ⟨⟨false, ['0'], ['0'], none⟩, ⟨.inl rfl, by simp, by simp⟩, rfl, rfl, .inl (by simp)⟩

/-- **A report writes every finite number with a point or an exponent.** -/
theorem exists_token_write (h : x.isFinite = true) :
    ∃ t : NumberToken, t.WellFormed ∧ t.text = (NumberLayout.report.write x).toList ∧
      (t.places ≠ [] ∨ t.exponent ≠ none) := by
  obtain ⟨negative, significand, exponent, hx⟩ := exists_ofFloat_eq_finite h
  obtain ⟨t, hwf, hsign, htext, hreal⟩ : IsRealText (if significand = 0 then
      '0' :: NumberLayout.report.wholeEnd
      else NumberLayout.report.writeDecimal
        (shortestDecimal NumberLayout.report.tie significand exponent)) := by
    split
    · exact ⟨⟨false, ['0'], ['0'], none⟩, ⟨.inl rfl, by simp, by simp⟩, rfl, rfl, .inl (by simp)⟩
    next hne => exact isRealText_writeDecimal (digits_shortestDecimal _ hne exponent)
  refine ⟨{ t with negative }, ⟨hwf.whole, hwf.places, hwf.exponent⟩, ?_, hreal⟩
  rw [NumberLayout.write, hx]
  simp only [String.toList_ofList]
  rw [← htext, text, text, hsign]
  rfl

/-! ## Reading a number -/

/-- What is read for the text of a number; none when the reader finds it too great. -/
def reread? (x : Float) : Option Float :=
  (scanNumber (NumberLayout.report.write x).toList).bind fun p => p.1.value?.map JsonNumber.toFloat

/-- What has a point or an exponent is not read as an integer. -/
theorem value?_eq_map_real (h : t.places ≠ [] ∨ t.exponent ≠ none) :
    t.value? = (t.value?.map JsonNumber.toFloat).map .real := by
  have hreal : (t.places.isEmpty && t.exponent.isNone && (absorbDigits 0 t.whole).2.isEmpty) =
      false := by
    rcases h with h | h <;> simp [h]
  unfold NumberToken.value?
  simp only [hreal, Bool.false_eq_true, if_false, Option.map_map]
  rfl

theorem endsNumber_nil : EndsNumber [] := ⟨by simp [NoDigitAhead], by simp, by simp⟩

/-- **Reading a number inside a document** gives what is read for its text alone. -/
theorem readNumber_write (h : x.isFinite = true) (hrest : EndsNumber rest) :
    readNumber false ((JsonNumber.real x).write ++ rest) =
      match reread? x with
      | some y => .ok (.real y, rest)
      | none => .error .malformed := by
  obtain ⟨t, hwf, htext, hreal⟩ := exists_token_write h
  have hread : reread? x = t.value?.map JsonNumber.toFloat := by
    have hscan := scanNumber_text hwf endsNumber_nil
    rw [List.append_nil, htext] at hscan
    rw [reread?, hscan, Option.bind_some]
  rw [JsonNumber.write, if_pos h, ← htext, readNumber, scanNumber_text hwf hrest, hread]
  simp only
  rw [value?_eq_map_real hreal]
  cases t.value? <;> rfl

/-- The text of a number starts with a sign or a digit. -/
theorem exists_write_eq_cons (h : x.isFinite = true) :
    ∃ c s, (JsonNumber.real x).write = c :: s ∧ (c = '-' ∨ c.isDigit = true) := by
  obtain ⟨t, hwf, htext, -⟩ := exists_token_write h
  rw [JsonNumber.write, if_pos h, ← htext]
  exact exists_eq_cons_of_isText hwf (.parts (isExponentText_exponentPart t.exponent))

end ModuleRecovery
