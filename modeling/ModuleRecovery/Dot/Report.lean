import ModuleRecovery.Analysis
import ModuleRecovery.Dot.CallGraph
import ModuleRecovery.Dot.Coupling
import ModuleRecovery.Dot.Dendrogram

set_option relaxedAutoImplicit false
set_option autoImplicit false

/-!
# Drawings of a report

## Main definitions

* `ModuleRecovery.drawReport` — all drawings of a report, one after the other.
-/

namespace ModuleRecovery

/-- All drawings of a report, with an empty line between any two. -/
def drawReport (report : AnalysisReport) (leastWeight : Float) : String :=
  String.intercalate "\n\n"
    ([drawCallGraph "MethodGraph" report.methodGraph,
      drawCallGraph "ClassGraph" report.classGraph,
      drawCoupling report.couplingGraph report.partition leastWeight] ++
    (report.dendrogram.map (drawDendrogram · report.partition)).toList)

end ModuleRecovery
