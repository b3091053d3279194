import ModuleRecovery.Decimal.Binary64

set_option relaxedAutoImplicit false
set_option autoImplicit false

/-!
# Shortest decimals

Reading a decimal rounds it to the nearest number of the binary64 format, so every number
has an interval of decimals that read back as it. Its shortest decimal is the one in that
interval with the fewest digits, and among those the one nearest to the number. If a grid
of decimals with a given number of digits meets the interval at all, one of the two
neighbours of the number on that grid lies in it, so only these are tested.

All comparisons are made between natural numbers: the ends of the interval are multiples of
a power of two, and both sides are scaled by powers of two and ten until they are whole.

## Main definitions

* `ModuleRecovery.Decimal` — a natural number times a power of ten.
* `ModuleRecovery.Tie` — what to do about a number halfway between two decimals.
* `ModuleRecovery.shortestDecimal` — the shortest decimal of a number.
-/

namespace ModuleRecovery

/-- The number `digits * 10 ^ exponent`. -/
structure Decimal where
  /-- The digits, read as a natural number. -/
  digits : Nat
  /-- The power of ten. -/
  exponent : Int
deriving DecidableEq

/-- Which neighbour a number takes that lies halfway between the two. -/
inductive Tie where
  /-- The even neighbour. -/
  | toEven
  /-- The greater neighbour. -/
  | up
deriving DecidableEq

/-- The natural number `n` written in decimal digits. -/
def decimalDigits (n : Nat) : List Char :=
  Nat.toDigits 10 n

/-- The least `j` below `bound` with `whole ≤ part * 10 ^ j`, or `bound`. -/
def leadingZeros (part whole : Nat) : Nat → Nat
  | 0 => 0
  | bound + 1 => if whole ≤ part then 0 else leadingZeros (part * 10) whole bound + 1

/-- The `k` with `10 ^ (k - 1) ≤ part / whole < 10 ^ k`, for positive numbers. The smallest
positive number of the format is above `10 ^ -324`. -/
def pointPosition (part whole : Nat) : Int :=
  if whole ≤ part then (decimalDigits (part / whole)).length
  else 1 - (leadingZeros part whole 400 : Int)

/-- A positive number with the interval of decimals that read back as it. All three are
counted in quarters of the unit in the number's last place, `2 ^ exponent`. -/
structure ReadBack where
  /-- The lower end of the interval. -/
  low : Nat
  /-- The number. -/
  value : Nat
  /-- The upper end of the interval. -/
  high : Nat
  /-- A quarter of the last place is this power of two. -/
  exponent : Int
  /-- Whether the ends belong to the interval. -/
  closed : Bool

/-- The interval of the number `significand * 2 ^ exponent`. It reaches half way to the two
neighbours; the lower neighbour of a power of two is only half as far away. An end reads
back as the number with the even significand. -/
def ReadBack.ofFinite (significand : Nat) (exponent : Int) : ReadBack where
  low :=
    4 * significand -
      (if significand = leastFullSignificand ∧ exponent ≠ leastExponent then 1 else 2)
  value := 4 * significand
  high := 4 * significand + 2
  exponent := exponent - 2
  closed := significand % 2 = 0

/-- The nearest decimal among the multiples of `10 ^ t` that read back as the number. -/
def ReadBack.onGrid? (r : ReadBack) (tie : Tie) (t : Int) : Option Decimal :=
  let unit := Nat.pow 10 t.toNat * Nat.pow 2 (-r.exponent).toNat
  let scale := Nat.pow 10 (-t).toNat * Nat.pow 2 r.exponent.toNat
  let below := r.value * scale / unit
  let reads (d : Nat) : Bool :=
    if r.closed then r.low * scale ≤ d * unit && d * unit ≤ r.high * scale
    else r.low * scale < d * unit && d * unit < r.high * scale
  let gapBelow := r.value * scale - below * unit
  let gapAbove := (below + 1) * unit - r.value * scale
  match reads below, reads (below + 1) with
  | false, false => none
  | true, false => some ⟨below, t⟩
  | false, true => some ⟨below + 1, t⟩
  | true, true =>
    if gapBelow < gapAbove then some ⟨below, t⟩
    else if gapAbove < gapBelow then some ⟨below + 1, t⟩
    else match tie with
      | .up => some ⟨below + 1, t⟩
      | .toEven => some (if below % 2 = 0 then ⟨below, t⟩ else ⟨below + 1, t⟩)

/-- The first grid that holds a decimal, trying one digit more each time. -/
def ReadBack.firstGrid (r : ReadBack) (tie : Tie) (t : Int) : Nat → Decimal
  | 0 => ⟨0, 0⟩
  | tries + 1 =>
    match r.onGrid? tie t with
    | some d => d
    | none => r.firstGrid tie (t - 1) tries

/-- The shortest decimal that reads back as the positive number
`significand * 2 ^ exponent`. Seventeen digits are always enough. -/
def shortestDecimal (tie : Tie) (significand : Nat) (exponent : Int) : Decimal :=
  let r := ReadBack.ofFinite significand exponent
  let k := pointPosition (significand * Nat.pow 2 exponent.toNat) (Nat.pow 2 (-exponent).toNat)
  r.firstGrid tie (k - 1) 18

end ModuleRecovery
