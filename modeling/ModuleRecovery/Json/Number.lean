import ModuleRecovery.Decimal.Reader
import ModuleRecovery.Json.Value

set_option relaxedAutoImplicit false
set_option autoImplicit false

/-!
# Numbers in JSON documents

A number is an integer as long as it has neither a point nor an exponent and fits into a
word of 64 bits. Any other number is computed from the leading digits that fit into such a
word: their integer is scaled by a power of ten in floating-point arithmetic. A number that
is too great is refused.

## Main definitions

* `ModuleRecovery.NumberToken` — the parts of a number as they are written.
* `ModuleRecovery.scanNumber` — split a number off a text.
* `ModuleRecovery.NumberToken.value?` — the value of a number.
-/

namespace ModuleRecovery

/-- A number as it is written. -/
structure NumberToken where
  /-- Whether it starts with a minus sign. -/
  negative : Bool
  /-- The digits before the point. -/
  whole : List Char
  /-- The digits after the point. -/
  places : List Char
  /-- The sign and the digits of the exponent. -/
  exponent : Option (Bool × List Char)

/-- Split the digits before the point off a text; zero stands alone. -/
def scanWhole : List Char → Option (List Char × List Char)
  | [] => none
  | c :: s =>
    if c = '0' then
      if s.head?.any Char.isDigit then none else some ([c], s)
    else if c.isDigit then some ((c :: s).span Char.isDigit)
    else none

/-- Split the digits after the point off a text, if there is a point. -/
def scanPlaces : List Char → Option (List Char × List Char)
  | '.' :: s =>
    let (digits, rest) := s.span Char.isDigit
    if digits.isEmpty then none else some (digits, rest)
  | s => some ([], s)

/-- Split an exponent off a text, if there is one. -/
def scanExponent : List Char → Option (Option (Bool × List Char) × List Char)
  | [] => some (none, [])
  | c :: s =>
    if c = 'e' || c = 'E' then
      let (negative, s) := takeSign s
      let (digits, rest) := s.span Char.isDigit
      if digits.isEmpty then none else some (some (negative, digits), rest)
    else some (none, c :: s)

/-- Split a number off a text. -/
def scanNumber (s : List Char) : Option (NumberToken × List Char) := do
  let (negative, s) := match s with
    | '-' :: s => (true, s)
    | _ => (false, s)
  let (whole, s) ← scanWhole s
  let (places, s) ← scanPlaces s
  let (exponent, s) ← scanExponent s
  return (⟨negative, whole, places, exponent⟩, s)

/-- The bound of the words that integers have to fit into. -/
def wordBound : Nat :=
  Nat.pow 2 64

/-- Append digits to a word as long as it does not overflow; the digits left over. -/
def absorbDigits (word : Nat) : List Char → Nat × List Char
  | [] => (word, [])
  | c :: s =>
    let next := valueOfDigits word [c]
    if next < wordBound then absorbDigits next s else (word, c :: s)

/-- A power of ten as a floating-point number. -/
def powerOfTen (n : Nat) : Float :=
  Float.ofScientific 1 false n

/-- Divide by a power of ten, in steps that a floating-point number can take. -/
def divideByPowerOfTen (x : Float) (n : Nat) : Float :=
  if n ≤ 308 then x / powerOfTen n
  else if n ≤ 616 then x / powerOfTen 308 / powerOfTen (n - 308)
  else if n ≤ 924 then x / powerOfTen 308 / powerOfTen 308 / powerOfTen (n - 616)
  else 0

/-- A word scaled by a power of ten; none when the result is too great. -/
def scaleWord? (word : Nat) (exponent : Int) : Option Float :=
  let x := Float.ofNat word
  if exponent < 0 then some (divideByPowerOfTen x exponent.natAbs)
  else if word = 0 then some 0
  else if 308 < exponent then none
  else
    let scaled := x * powerOfTen exponent.natAbs
    if scaled.isInf then none else some scaled

/-- The value of a number; none when it is too great. -/
def NumberToken.value? (t : NumberToken) : Option JsonNumber :=
  let (word, dropped) := absorbDigits 0 t.whole
  if t.places.isEmpty && t.exponent.isNone && dropped.isEmpty then
    if !t.negative then some (.natural word)
    else if 0 < word && word ≤ Nat.pow 2 63 then some (.negative word)
    else some (.real (-Float.ofNat word))
  else
    let (word, unread) := absorbDigits word t.places
    let base : Int := dropped.length - (t.places.length - unread.length : Nat)
    let exponent := match t.exponent with
      | none => base
      | some (true, digits) => base - valueOfDigits 0 digits
      | some (false, digits) => base + valueOfDigits 0 digits
    (scaleWord? word exponent).map fun x => .real (withSign t.negative x)

end ModuleRecovery
