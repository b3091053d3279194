import ModuleRecovery.Decimal.Shortest

set_option relaxedAutoImplicit false
set_option autoImplicit false

/-!
# Texts of numbers

Numbers are written in two ways: with the fewest digits that read back as the same number,
or with a fixed number of decimal places. A layout decides how the fewest digits are laid
out; the two layouts of this library are for messages and for reports.

## Main definitions

* `ModuleRecovery.NumberLayout` — the decisions about the fewest digits.
* `ModuleRecovery.NumberLayout.plain`, `ModuleRecovery.NumberLayout.report` — the layouts.
* `ModuleRecovery.NumberLayout.write` — a number in a layout.
* `ModuleRecovery.fixedPlaces` — a number with a fixed number of places.
-/

namespace ModuleRecovery

/-- How the fewest digits of a number are laid out. -/
structure NumberLayout where
  /-- What becomes of a number halfway between two decimals. -/
  tie : Tie
  /-- Whether a number with the decimal point after that many digits is written without an
  exponent. -/
  positional : Int → Bool
  /-- What is written behind a whole number. -/
  wholeEnd : List Char
  /-- What is written before a positive exponent. -/
  positiveExponent : List Char

namespace NumberLayout

/-- Messages show numbers without an exponent, and whole numbers without a point. -/
def plain : NumberLayout where
  tie := .up
  positional := fun _ => true
  wholeEnd := []
  positiveExponent := []

/-- Reports show every number with a point or an exponent. Numbers from `10 ^ -5` up to but
not including `10 ^ 16` have no exponent. -/
def report : NumberLayout where
  tie := .toEven
  positional := fun k => -5 < k && k ≤ 16
  wholeEnd := ['.', '0']
  positiveExponent := ['+']

end NumberLayout

/-- The sign of a number. -/
def signText (negative : Bool) : List Char :=
  if negative then ['-'] else []

/-- The texts shared by all layouts for what is no finite number. -/
def notANumberText : String := "NaN"

/-- The text of an infinity, without its sign. -/
def infinityText : String := "inf"

/-- An integer in decimal digits, with the given text before a positive one. -/
def exponentText (positive : List Char) (k : Int) : List Char :=
  if k < 0 then '-' :: decimalDigits k.natAbs else positive ++ decimalDigits k.natAbs

/-- Digits whose decimal point stands after the first `k` of them. -/
def positionalText (wholeEnd digits : List Char) (k : Int) : List Char :=
  if k ≤ 0 then '0' :: '.' :: (List.replicate k.natAbs '0' ++ digits)
  else if digits.length ≤ k.toNat then
    digits ++ List.replicate (k.toNat - digits.length) '0' ++ wholeEnd
  else digits.take k.toNat ++ '.' :: digits.drop k.toNat

/-- Digits with an exponent: the point stands after the first digit. -/
def scientificText (positive digits : List Char) (k : Int) : List Char :=
  let tail := digits.drop 1
  digits.take 1 ++ (if tail.isEmpty then [] else '.' :: tail) ++
    'e' :: exponentText positive (k - 1)

/-- Digits without the zeros they end in. -/
def dropTrailingZeros (digits : List Char) : List Char :=
  (digits.reverse.dropWhile (· = '0')).reverse

namespace NumberLayout

/-- A positive decimal in a layout. -/
def writeDecimal (layout : NumberLayout) (d : Decimal) : List Char :=
  let all := decimalDigits d.digits
  let k := all.length + d.exponent
  let digits := dropTrailingZeros all
  if layout.positional k then positionalText layout.wholeEnd digits k
  else scientificText layout.positiveExponent digits k

/-- A number in a layout. -/
def write (layout : NumberLayout) (x : Float) : String :=
  match Binary64.ofFloat x with
  | .notANumber => notANumberText
  | .infinite negative => String.ofList (signText negative) ++ infinityText
  | .finite negative significand exponent =>
    String.ofList (signText negative ++
      if significand = 0 then '0' :: layout.wholeEnd
      else layout.writeDecimal (shortestDecimal layout.tie significand exponent))

end NumberLayout

/-- The quotient of two natural numbers, rounded to the nearest one; a quotient halfway
between two goes to the even one. -/
def roundDiv (part whole : Nat) : Nat :=
  let q := part / whole
  let rest := part % whole
  if 2 * rest < whole then q
  else if whole < 2 * rest then q + 1
  else if q % 2 = 0 then q else q + 1

/-- A number with a fixed number of decimal places, rounded from its exact value. -/
def fixedPlaces (places : Nat) (x : Float) : String :=
  match Binary64.ofFloat x with
  | .notANumber => notANumberText
  | .infinite negative => String.ofList (signText negative) ++ infinityText
  | .finite negative significand exponent =>
    let scaled := roundDiv (significand * Nat.pow 10 places * Nat.pow 2 exponent.toNat)
      (Nat.pow 2 (-exponent).toNat)
    let digits := decimalDigits scaled
    let padded := List.replicate (places + 1 - digits.length) '0' ++ digits
    let point := padded.length - places
    String.ofList (signText negative ++ padded.take point ++ '.' :: padded.drop point)

end ModuleRecovery
