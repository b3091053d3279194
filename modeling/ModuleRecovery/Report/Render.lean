import ModuleRecovery.Dot.Report
import ModuleRecovery.Report.Document

set_option relaxedAutoImplicit false
set_option autoImplicit false

/-!
# Rendering a report

## Main definitions

* `ModuleRecovery.renderReport` — the text of a report file in either format.
-/

namespace ModuleRecovery

/-- The text of a report file. The least weight matters for drawings only. -/
def renderReport (format : OutputFormat) (leastWeight : Float) (report : AnalysisReport) :
    String :=
  match format with
  | .json => writeReport report
  | .dot => drawReport report leastWeight

end ModuleRecovery
