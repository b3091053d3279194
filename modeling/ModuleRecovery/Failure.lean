import ModuleRecovery.Decimal.Layout

set_option relaxedAutoImplicit false
set_option autoImplicit false

/-!
# Reasons for refusing an analysis

## Main definitions

* `ModuleRecovery.AnalysisError` — why an analysis is refused.
* `ModuleRecovery.AnalysisError.message` — the text shown for it.
-/

namespace ModuleRecovery

/-- Why an analysis is refused. -/
inductive AnalysisError where
  /-- The cohesion threshold of the settings lies outside the unit interval. -/
  | thresholdOutOfRange (value : Float)
  /-- The cohesion threshold of a partition is not a finite number. -/
  | thresholdNotFinite (value : Float)
  /-- The settings ask for no worker at all. -/
  | noThreads
  /-- The class record at that position has no name. -/
  | namelessClass (position : Nat)
  /-- No linkage has that name. -/
  | unknownLinkage (text : String)
  /-- No output format has that name. -/
  | unknownFormat (text : String)

namespace AnalysisError

/-- The text for an argument that was refused. -/
def invalidArgument (name reason : String) : String :=
  "invalid argument `" ++ name ++ "`: " ++ reason

/-- The text shown for a refusal. -/
def message : AnalysisError → String
  | thresholdOutOfRange x =>
    invalidArgument "cohesion_threshold"
      ("must be a number in [0, 1], got " ++ NumberLayout.plain.write x)
  | thresholdNotFinite x =>
    invalidArgument "cohesion_threshold"
      ("must be finite, got " ++ NumberLayout.plain.write x)
  | noThreads => invalidArgument "threads" "must be at least 1"
  | namelessClass i =>
    invalidArgument "classes"
      ("class #" ++ String.ofList (decimalDigits i) ++
        " has neither a qualified nor a simple name")
  | unknownLinkage s =>
    "unknown linkage `" ++ s ++ "` (expected single, complete or average)"
  | unknownFormat s => "unknown output format `" ++ s ++ "` (expected json or dot)"

end AnalysisError

end ModuleRecovery
