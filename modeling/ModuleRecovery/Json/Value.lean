import ModuleRecovery.Decimal.Layout

set_option relaxedAutoImplicit false
set_option autoImplicit false

/-!
# JSON values

## Main definitions

* `ModuleRecovery.Json` — a JSON value; the members of an object keep their order.
* `ModuleRecovery.JsonFault` — the two ways a document can be wrong.
-/

namespace ModuleRecovery

/-- A number of a JSON document. -/
inductive JsonNumber where
  /-- An integer that is not negative. -/
  | natural (n : Nat)
  /-- The negative of a positive integer. -/
  | negative (n : Nat)
  /-- A number with a point or an exponent, or an integer too large for a word. -/
  | real (x : Float)

/-- The number as a floating-point number. -/
def JsonNumber.toFloat : JsonNumber → Float
  | natural n => Float.ofNat n
  | negative n => -Float.ofNat n
  | real x => x

/-- A JSON value. -/
inductive Json where
  /-- The value `null`. -/
  | null
  /-- A truth value. -/
  | bool (b : Bool)
  /-- A number. -/
  | number (n : JsonNumber)
  /-- A string. -/
  | string (s : String)
  /-- A list of values. -/
  | array (items : List Json)
  /-- A list of named values; a name may occur several times. -/
  | object (members : List (String × Json))

instance : Inhabited Json := ⟨.null⟩

/-- What is wrong with a document. -/
inductive JsonFault where
  /-- The text breaks a rule of the notation or one of its limits. -/
  | malformed
  /-- The text is well formed, and says something else than what is asked for. -/
  | mismatch
deriving DecidableEq

end ModuleRecovery
