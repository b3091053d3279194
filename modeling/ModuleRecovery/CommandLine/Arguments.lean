import ModuleRecovery.Decimal.Reader
import ModuleRecovery.Settings.Basic
import ModuleRecovery.Text.Cut

set_option relaxedAutoImplicit false
set_option autoImplicit false

/-!
# Command-line arguments

The arguments are read from left to right, and the first of them that is wrong, or asks for
the help text or the version, decides. An option with a value is written `--name value`,
`--name=value`, `-n value`, `-nvalue` or `-n=value`; a value that starts with a hyphen is
only accepted behind an equals sign or right behind the letter. No option may be given
twice. The model is needed, and its absence is noticed last.

## Main definitions

* `ModuleRecovery.Options` — what a run is asked to do.
* `ModuleRecovery.UsageError` — why arguments are refused.
* `ModuleRecovery.readArguments` — read the arguments.
-/

namespace ModuleRecovery

/-- What a run is asked to do. -/
structure Options where
  /-- The path of the model file. -/
  model : String
  /-- The path of the settings file. -/
  config : Option String := none
  /-- The path of the report file. -/
  output : String := "archmap-report.json"
  /-- The format of the report file. -/
  format : OutputFormat := .json
  /-- The linkage, in place of the one in the settings file. -/
  linkage : Option Linkage := none
  /-- The cohesion threshold, in place of the one in the settings file. -/
  cohesionThreshold : Option Float := none
  /-- Whether nodes outside the model are dropped, whatever the settings file says. -/
  noExternal : Bool := false
  /-- The least weight of the edges in drawings. -/
  minWeight : Float := 0
  /-- The number of workers, in place of the one in the settings file. -/
  threads : Option Nat := none

/-- What the arguments ask for. -/
inductive Request where
  /-- A run with the given options. -/
  | run (options : Options)
  /-- The help text. -/
  | help
  /-- The version. -/
  | version

/-- Why arguments are refused. -/
inductive UsageError where
  /-- There is no such option. -/
  | unknownOption (text : String)
  /-- The argument is neither an option nor the value of one. -/
  | unexpectedArgument (text : String)
  /-- The option was given before. -/
  | repeatedOption (name : String)
  /-- The option needs a value. -/
  | missingValue (name : String)
  /-- The option takes no value. -/
  | unneededValue (name : String)
  /-- The value does not suit the option. -/
  | invalidValue (name value : String)
  /-- The option has to be given. -/
  | missingOption (name : String)

/-- The text shown for refused arguments. -/
def UsageError.message : UsageError → String
  | unknownOption text => "unknown option " ++ text
  | unexpectedArgument text => "unexpected argument " ++ text
  | repeatedOption name => "the option --" ++ name ++ " was given twice"
  | missingValue name => "the option --" ++ name ++ " needs a value"
  | unneededValue name => "the option --" ++ name ++ " takes no value"
  | invalidValue name value => "the option --" ++ name ++ " does not take the value " ++ value
  | missingOption name => "the option --" ++ name ++ " is needed"

/-- The options read so far. -/
structure OptionDraft where
  /-- The path of the model file. -/
  model : Option String := none
  /-- The path of the settings file. -/
  config : Option String := none
  /-- The path of the report file. -/
  output : Option String := none
  /-- The format of the report file. -/
  format : Option OutputFormat := none
  /-- The linkage. -/
  linkage : Option Linkage := none
  /-- The cohesion threshold. -/
  cohesionThreshold : Option Float := none
  /-- Whether nodes outside the model are dropped. -/
  noExternal : Bool := false
  /-- The least weight of the edges in drawings. -/
  minWeight : Option Float := none
  /-- The number of workers. -/
  threads : Option Nat := none

/-- The options a draft stands for, where what was not given has its default value. -/
def OptionDraft.toOptions? (d : OptionDraft) : Option Options := do
  let model ← d.model
  return {
    model
    config := d.config
    output := d.output.getD "archmap-report.json"
    format := d.format.getD .json
    linkage := d.linkage
    cohesionThreshold := d.cohesionThreshold
    noExternal := d.noExternal
    minWeight := d.minWeight.getD 0
    threads := d.threads }

/-- An option that takes a value. -/
structure ValueOption where
  /-- The name behind two hyphens. -/
  name : String
  /-- The letter behind one hyphen. -/
  letter : Option Char
  /-- Whether the option was given. -/
  isGiven : OptionDraft → Bool
  /-- Take the value into account, if it suits the option. -/
  set? : OptionDraft → String → Option OptionDraft

/-- A path, which is not empty. -/
def path? (value : String) : Option String :=
  if value = "" then none else some value

/-- The options that take a value. -/
def valueOptions : List ValueOption :=
  [{ name := "model", letter := some 'm'
     isGiven := fun d => d.model.isSome
     set? := fun d v => (path? v).map fun p => { d with model := some p } },
   { name := "config", letter := some 'c'
     isGiven := fun d => d.config.isSome
     set? := fun d v => (path? v).map fun p => { d with config := some p } },
   { name := "output", letter := some 'o'
     isGiven := fun d => d.output.isSome
     set? := fun d v => (path? v).map fun p => { d with output := some p } },
   { name := "format", letter := some 'f'
     isGiven := fun d => d.format.isSome
     set? := fun d v => (OutputFormat.parse v).toOption.map fun f => { d with format := some f } },
   { name := "linkage", letter := some 'l'
     isGiven := fun d => d.linkage.isSome
     set? := fun d v => (Linkage.parse v).toOption.map fun l => { d with linkage := some l } },
   { name := "cohesion-threshold", letter := none
     isGiven := fun d => d.cohesionThreshold.isSome
     set? := fun d v =>
      (readFloat? v.toList).map fun x => { d with cohesionThreshold := some x } },
   { name := "min-weight", letter := none
     isGiven := fun d => d.minWeight.isSome
     set? := fun d v => (readFloat? v.toList).map fun x => { d with minWeight := some x } },
   { name := "threads", letter := some 't'
     isGiven := fun d => d.threads.isSome
     set? := fun d v =>
      (readNat? (Nat.pow 2 64) v.toList).map fun n => { d with threads := some n } }]

/-- Give an option a value. -/
def OptionDraft.give (d : OptionDraft) (o : ValueOption) (value : String) :
    Except UsageError OptionDraft :=
  if o.isGiven d then .error (.repeatedOption o.name)
  else match o.set? d value with
    | some d => .ok d
    | none => .error (.invalidValue o.name value)

/-- The name of the option that drops nodes outside the model. -/
def noExternalName : String :=
  "no-external"

/-- What one argument says. -/
inductive Argument where
  /-- No option follows. -/
  | endOfOptions
  /-- The help text is asked for. -/
  | help
  /-- The version is asked for. -/
  | version
  /-- Nodes outside the model are to be dropped. -/
  | noExternal
  /-- The option with a value, which may follow in the next argument. -/
  | option (o : ValueOption) (value : Option String)
  /-- The argument is wrong. -/
  | wrong (e : UsageError)

/-- Whether an argument can be the value of the option before it. -/
def isValue (argument : String) : Bool :=
  argument = "-" || !startsWith "-" argument

/-- Read an argument behind its two hyphens. -/
def readLongArgument (text : List Char) : Argument :=
  let (name, value) := match cutFirst '=' text with
    | some (name, value) => (String.ofList name, some (String.ofList value))
    | none => (String.ofList text, none)
  let flag (a : Argument) : Argument :=
    if value.isSome then .wrong (.unneededValue name) else a
  if name = "help" then flag .help
  else if name = "version" then flag .version
  else if name = noExternalName then flag .noExternal
  else match valueOptions.find? (·.name = name) with
    | some o => .option o value
    | none => .wrong (.unknownOption ("--" ++ name))

/-- Read an argument behind its hyphen: a letter and what follows it. -/
def readShortArgument (letter : Char) (rest : List Char) : Argument :=
  if letter = 'h' then .help
  else if letter = 'V' then .version
  else match valueOptions.find? (·.letter = some letter) with
    | none => .wrong (.unknownOption (String.ofList ['-', letter]))
    | some o =>
      match rest with
      | [] => .option o none
      | '=' :: value => .option o (some (String.ofList value))
      | value => .option o (some (String.ofList value))

/-- Read one argument. -/
def readArgument (argument : String) : Argument :=
  match argument.toList with
  | ['-', '-'] => .endOfOptions
  | '-' :: '-' :: text => readLongArgument text
  | '-' :: letter :: rest => readShortArgument letter rest
  | _ => .wrong (.unexpectedArgument argument)

/-- What the options read so far ask for when no more follow. -/
def OptionDraft.finish (d : OptionDraft) : Except UsageError Request :=
  match d.toOptions? with
  | some options => .ok (.run options)
  | none => .error (.missingOption "model")

/-- Read the arguments behind those that led to a draft. -/
def OptionDraft.readArguments (d : OptionDraft) : List String → Except UsageError Request
  | [] => d.finish
  | argument :: rest =>
    match readArgument argument with
    | .wrong e => .error e
    | .help => .ok .help
    | .version => .ok .version
    | .endOfOptions =>
      match rest with
      | [] => d.finish
      | extra :: _ => .error (.unexpectedArgument extra)
    | .noExternal =>
      if d.noExternal then .error (.repeatedOption noExternalName)
      else { d with noExternal := true }.readArguments rest
    | .option o (some value) => do
      let d ← d.give o value
      d.readArguments rest
    | .option o none =>
      match rest with
      | [] => .error (.missingValue o.name)
      | value :: rest =>
        if isValue value then do
          let d ← d.give o value
          d.readArguments rest
        else .error (.missingValue o.name)

/-- Read the arguments of a command line. -/
def readArguments (arguments : List String) : Except UsageError Request :=
  ({} : OptionDraft).readArguments arguments

end ModuleRecovery
