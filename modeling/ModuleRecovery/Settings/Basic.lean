import ModuleRecovery.Clustering.Linkage

set_option relaxedAutoImplicit false
set_option autoImplicit false

/-!
# Settings of an analysis

## Main definitions

* `ModuleRecovery.Settings` — the settings.
* `ModuleRecovery.Settings.validate` — refuse settings that make no sense.
* `ModuleRecovery.OutputFormat` — the formats of a report file.
-/

namespace ModuleRecovery

/-- The settings of an analysis. -/
structure Settings where
  /-- Whether the call graphs show nodes outside the model. -/
  includeExternal : Bool := true
  /-- The linkage of the clustering. -/
  linkage : Linkage := .single
  /-- The average coupling that a module should reach. -/
  cohesionThreshold : Float := 0.05
  /-- The number of workers, when it is fixed. -/
  threads : Option Nat := none

/-- Refuse a threshold outside the unit interval, and then a number of workers of zero. -/
def Settings.validate (s : Settings) : Except AnalysisError Unit :=
  if !(0 ≤ s.cohesionThreshold && s.cohesionThreshold ≤ 1) then
    .error (.thresholdOutOfRange s.cohesionThreshold)
  else if s.threads = some 0 then .error .noThreads
  else .ok ()

/-- The formats of a report file. -/
inductive OutputFormat where
  /-- The whole report as one document. -/
  | json
  /-- Drawings of the graphs and of the dendrogram. -/
  | dot
deriving DecidableEq

namespace OutputFormat

/-- The name of a format. -/
def name : OutputFormat → String
  | json => "json"
  | dot => "dot"

/-- Read the name of a format, in any case and with blanks around it. -/
def parse (s : String) : Except AnalysisError OutputFormat :=
  let word := String.ofList (lowerCase (trim s.toList))
  match [json, dot].find? (·.name = word) with
  | some format => .ok format
  | none => .error (.unknownFormat s)

end OutputFormat

end ModuleRecovery
