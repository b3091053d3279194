import ModuleRecovery.Decimal.Shortest
import ModuleRecovery.Text.Blank

set_option relaxedAutoImplicit false
set_option autoImplicit false

/-!
# Reading numbers

A number is written with digits, at most one point and at most one exponent; at least one
digit stands before the exponent. Its value is the nearest number of the binary64 format.
The words for infinity and for no number are read in any case.

## Main definitions

* `ModuleRecovery.Decimal.toFloat` — the nearest number to a decimal.
* `ModuleRecovery.readFloat?` — read a number.
* `ModuleRecovery.readNat?` — read a natural number.
-/

namespace ModuleRecovery

/-- The value of a list of decimal digits, behind digits of the value `start`. -/
def valueOfDigits (start : Nat) (digits : List Char) : Nat :=
  digits.foldl (fun n c => 10 * n + (c.toNat - '0'.toNat)) start

/-- The nearest number to a decimal. A decimal that is far above the greatest number, or far
below the least positive one, is not computed. -/
def Decimal.toFloat (d : Decimal) : Float :=
  let size := (decimalDigits d.digits).length + d.exponent
  if d.digits = 0 then 0
  else if 310 < size then positiveInfinity
  else if size < -330 then 0
  else Float.ofScientific d.digits (decide (d.exponent < 0)) d.exponent.natAbs

/-- A number with its sign. -/
def withSign (negative : Bool) (x : Float) : Float :=
  if negative then -x else x

/-- Take an optional sign off a text; a minus sign gives `true`. -/
def takeSign : List Char → Bool × List Char
  | '-' :: s => (true, s)
  | '+' :: s => (false, s)
  | s => (false, s)

/-- Read the digits of an exponent with an optional sign. -/
def readExponent? (s : List Char) : Option Int :=
  let (negative, digits) := takeSign s
  if digits.isEmpty || !digits.all Char.isDigit then none
  else if negative then some (-(valueOfDigits 0 digits : Int))
  else some (valueOfDigits 0 digits)

/-- Read a decimal without a sign. -/
def readDecimal? (s : List Char) : Option Decimal :=
  let (whole, rest) := s.span Char.isDigit
  let (places, rest) := match rest with
    | '.' :: rest => rest.span Char.isDigit
    | _ => ([], rest)
  let digits := valueOfDigits 0 (whole ++ places)
  if whole.isEmpty && places.isEmpty then none
  else match rest with
    | [] => some ⟨digits, -(places.length : Int)⟩
    | c :: rest =>
      if c = 'e' || c = 'E' then
        (readExponent? rest).map fun e => ⟨digits, e - places.length⟩
      else none

/-- Read a number with an optional sign. -/
def readFloat? (s : List Char) : Option Float :=
  let (negative, s) := takeSign s
  let word := String.ofList (lowerCase s)
  if word = "inf" || word = "infinity" then some (withSign negative positiveInfinity)
  else if word = "nan" then some (0 / 0)
  else (readDecimal? s).map fun d => withSign negative d.toFloat

/-- Read a natural number below the given bound, with an optional plus sign. -/
def readNat? (bound : Nat) (s : List Char) : Option Nat :=
  let digits := match s with
    | '+' :: rest => rest
    | _ => s
  if digits.isEmpty || !digits.all Char.isDigit then none
  else
    let n := valueOfDigits 0 digits
    if n < bound then some n else none

end ModuleRecovery
