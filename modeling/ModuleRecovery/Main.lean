import ModuleRecovery.CommandLine.Run

set_option relaxedAutoImplicit false
set_option autoImplicit false

/-!
# The program

The program reads the files named by its arguments, and leaves every decision to
`ModuleRecovery.readArguments` and `ModuleRecovery.reportText`.
-/

namespace ModuleRecovery

/-- The text shown on request. -/
def helpText : String :=
  joinLines
    ["Class coupling analysis and module identification",
     "",
     "  -m, --model <FILE>           extracted model (JSON)",
     "  -c, --config <FILE>          analysis settings (TOML)",
     "  -o, --output <FILE>          report file [default: archmap-report.json]",
     "  -f, --format <NAME>          json or dot [default: json]",
     "  -l, --linkage <NAME>         single, complete or average",
     "      --cohesion-threshold <X> least average coupling inside a module, in [0, 1]",
     "      --no-external            drop calls into code outside the project",
     "      --min-weight <X>         hide lighter coupling edges in drawings [default: 0]",
     "  -t, --threads <N>            worker threads",
     "  -h, --help                   show this text",
     "  -V, --version                show the version"]

/-- The contents of a file, if it can be read. -/
def readFile? (path : String) : IO (Option ByteArray) := do
  try
    return some (← IO.FS.readBinFile path)
  catch _ =>
    return none

/-- Write a file, and tell whether that was possible. -/
def writeFile (path text : String) : IO Bool := do
  try
    IO.FS.writeFile path text
    return true
  catch _ =>
    return false

/-- A run with options. -/
def runIn (o : Options) : IO Outcome := do
  let config ← match o.config with
    | some path => readFile? path
    | none => pure none
  let model ← readFile? o.model
  let contents (path : String) : Option ByteArray :=
    if path = o.model then model else if o.config = some path then config else none
  match reportText contents o with
  | .error e => return .failure e
  | .ok text =>
    if ← writeFile o.output text then return .success
    else return .failure (.unwritableReport o.output)

end ModuleRecovery

open ModuleRecovery in
/-- The program. -/
def main (arguments : List String) : IO UInt32 := do
  let outcome ← match readArguments arguments with
    | .error e => pure (.usage e)
    | .ok .help => do
      IO.println helpText
      pure .success
    | .ok .version => do
      IO.println "0.1.0"
      pure .success
    | .ok (.run o) => runIn o
  match outcome with
  | .success => pure ()
  | .failure e => IO.eprintln (errorReport e)
  | .usage e => IO.eprintln ("error: " ++ e.message)
  return outcome.exitCode.toUInt32
