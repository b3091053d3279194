import ModuleRecovery.CommandLine.Arguments
import ModuleRecovery.CommandLine.FileStore
import ModuleRecovery.Model.Document
import ModuleRecovery.Report.Render
import ModuleRecovery.Settings.File

set_option relaxedAutoImplicit false
set_option autoImplicit false

/-!
# Runs of the program

A run reads the settings, then the model, analyses it, and writes one file. The first stage
that fails ends the run, and no file is written then.

## Main definitions

* `ModuleRecovery.RunError` — why a run fails.
* `ModuleRecovery.loadSettings` — the settings of a file.
* `ModuleRecovery.reportText` — the text that a run writes.
* `ModuleRecovery.runProgram` — a run over the files of a store.
-/

namespace ModuleRecovery

/-- Why a run fails. -/
inductive RunError where
  /-- The settings file is missing or is no text. -/
  | unreadableConfig (path : String)
  /-- The settings file is no document with settings. -/
  | invalidConfig (path : String)
  /-- The model file is missing or is no text. -/
  | unreadableModel (path : String)
  /-- The model file is no model document. -/
  | invalidModel (path : String) (fault : JsonFault)
  /-- The settings or the model are refused. -/
  | refused (e : AnalysisError)
  /-- The report file cannot be written. -/
  | unwritableReport (path : String)

/-- The text shown for a failed run. -/
def RunError.message : RunError → String
  | unreadableConfig path => "Failed to read config " ++ path
  | invalidConfig path => "Invalid config " ++ path
  | unreadableModel path => "Failed to read model " ++ path
  | invalidModel path _ => "Failed to load model " ++ path
  | refused e => e.message
  | unwritableReport path => "Failed to write report to " ++ path

/-- The contents of a file that is a text in the UTF-8 encoding. -/
def textOf? (contents : Option ByteArray) : Option String :=
  contents.bind String.fromUTF8?

/-- A result of the analysis as a result of a stage of a run. -/
def refuseBy {α : Type} : Except AnalysisError α → Except RunError α
  | .ok a => .ok a
  | .error e => .error (.refused e)

/-- The settings of a file, of which `read` gives the contents. -/
def loadSettings (read : String → Option ByteArray) (path : String) :
    Except RunError Settings :=
  match textOf? (read path) with
  | none => .error (.unreadableConfig path)
  | some text =>
    match Settings.ofText? text with
    | none => .error (.invalidConfig path)
    | some settings => do
      refuseBy settings.validate
      return settings

/-- The settings with those that are given as options. -/
def Settings.override (s : Settings) (o : Options) : Settings where
  includeExternal := s.includeExternal && !o.noExternal
  linkage := o.linkage.getD s.linkage
  cohesionThreshold := o.cohesionThreshold.getD s.cohesionThreshold
  threads := o.threads.or s.threads

/-- The settings of a run: those of the settings file, or the default settings, with those that
are given as options. -/
def effectiveSettings (read : String → Option ByteArray) (o : Options) :
    Except RunError Settings := do
  let base ← match o.config with
    | some path => loadSettings read path
    | none => .ok {}
  let settings := base.override o
  refuseBy settings.validate
  return settings

/-- The model of a file. -/
def loadModel (read : String → Option ByteArray) (path : String) :
    Except RunError (List ClassRecord) :=
  match textOf? (read path) with
  | none => .error (.unreadableModel path)
  | some text =>
    match readModel text with
    | .ok classes => .ok classes
    | .error fault => .error (.invalidModel path fault)

/-- The text that a run writes. -/
def reportText (read : String → Option ByteArray) (o : Options) : Except RunError String := do
  let settings ← effectiveSettings read o
  let classes ← loadModel read o.model
  let report ← refuseBy (analyze classes settings)
  return renderReport o.format o.minWeight report

/-- How a run ends. -/
inductive Outcome where
  /-- The report was written, or a text about the program was asked for. -/
  | success
  /-- A stage failed. -/
  | failure (e : RunError)
  /-- The arguments are refused. -/
  | usage (e : UsageError)

/-- The exit code of a run. -/
def Outcome.exitCode : Outcome → Nat
  | success => 0
  | failure _ => 1
  | usage _ => 2

/-- The report of a failed run. -/
def errorReport (e : RunError) : String :=
  "Error: " ++ e.message

/-- A run with options: how it ends, and the files after it. -/
def runOptions (o : Options) (files : FileStore) : Outcome × FileStore :=
  match reportText files.read o with
  | .error e => (.failure e, files)
  | .ok text =>
    match files.write? o.output text with
    | some files => (.success, files)
    | none => (.failure (.unwritableReport o.output), files)

/-- A run with arguments: how it ends, and the files after it. -/
def runProgram (arguments : List String) (files : FileStore) : Outcome × FileStore :=
  match readArguments arguments with
  | .error e => (.usage e, files)
  | .ok .help => (.success, files)
  | .ok .version => (.success, files)
  | .ok (.run o) => runOptions o files

end ModuleRecovery
