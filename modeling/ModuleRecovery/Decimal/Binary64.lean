set_option relaxedAutoImplicit false
set_option autoImplicit false

/-!
# Exact values of floating-point numbers

A finite number in the binary64 format is a sign, a natural number and a power of two.
All texts of numbers are computed from these three.

## Main definitions

* `ModuleRecovery.Binary64` — a number taken apart.
* `ModuleRecovery.Binary64.ofFloat` — take a number apart.
-/

namespace ModuleRecovery

/-- The number above all others. -/
def positiveInfinity : Float :=
  1 / 0

/-- The number below all others. -/
def negativeInfinity : Float :=
  -1 / 0

/-- A number in the binary64 format, taken apart. -/
inductive Binary64 where
  /-- No number. -/
  | notANumber
  /-- An infinity. -/
  | infinite (negative : Bool)
  /-- The number `significand * 2 ^ exponent`, or its negative. -/
  | finite (negative : Bool) (significand : Nat) (exponent : Int)
deriving DecidableEq

/-- The least significand of a number that has all its bits. -/
def leastFullSignificand : Nat :=
  Nat.pow 2 52

/-- The least power of two a number is a multiple of. -/
def leastExponent : Int :=
  -1074

/-- Take a number apart. -/
def Binary64.ofFloat (x : Float) : Binary64 :=
  let bits := x.toBits.toNat
  let negative := decide (Nat.pow 2 63 ≤ bits)
  let field : Nat := bits / Nat.pow 2 52 % Nat.pow 2 11
  let fraction := bits % Nat.pow 2 52
  if field = 2047 then
    if fraction = 0 then infinite negative else notANumber
  else if field = 0 then finite negative fraction leastExponent
  else finite negative (leastFullSignificand + fraction) (leastExponent + ((field - 1 : Nat) : Int))

end ModuleRecovery
