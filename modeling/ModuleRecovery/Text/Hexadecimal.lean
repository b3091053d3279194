set_option relaxedAutoImplicit false
set_option autoImplicit false

/-!
# Hexadecimal digits

## Main definitions

* `ModuleRecovery.hexNumber?` — the number that hexadecimal digits stand for.
-/

namespace ModuleRecovery

/-- The value of a hexadecimal digit. -/
def hexValue? (c : Char) : Option Nat :=
  if c.isDigit then some (c.toNat - '0'.toNat)
  else if 'a' ≤ c && c ≤ 'f' then some (c.toNat - 'a'.toNat + 10)
  else if 'A' ≤ c && c ≤ 'F' then some (c.toNat - 'A'.toNat + 10)
  else none

/-- The number that hexadecimal digits stand for. -/
def hexNumber? (digits : List Char) : Option Nat :=
  digits.foldlM (fun n c => (hexValue? c).map (16 * n + ·)) 0

end ModuleRecovery
