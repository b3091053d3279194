import ModuleRecovery.Settings.Basic
import ModuleRecovery.Toml.Document

set_option relaxedAutoImplicit false
set_option autoImplicit false

/-!
# Settings files

A settings file is a TOML document with at most the four keys of the settings. A setting
that is left out has its default value. The linkage is given by its name; a table with that
name as its only key and something empty as its value stands for it as well.

## Main definitions

* `ModuleRecovery.Settings.ofEntries?` — the settings of a table.
* `ModuleRecovery.Settings.ofText?` — the settings of a document.
-/

namespace ModuleRecovery

namespace Settings

/-- Whether a value is an empty list or table. -/
def isEmptyValue : Toml → Bool
  | .array items => items.isEmpty
  | .table _ entries => entries.isEmpty
  | _ => false

/-- The linkage a value stands for. -/
def linkageOf? : Toml → Option Linkage
  | .string s => Linkage.ofName? s
  | .table _ [(name, v)] => if isEmptyValue v then Linkage.ofName? name else none
  | _ => none

/-- The truth value a value stands for. -/
def flagOf? : Toml → Option Bool
  | .boolean b => some b
  | _ => none

/-- The threshold a value stands for. -/
def thresholdOf? : Toml → Option Float
  | .integer n => some (withSign (n < 0) (Float.ofNat n.natAbs))
  | .float x => some x
  | _ => none

/-- The number of workers a value stands for. -/
def threadsOf? : Toml → Option Nat
  | .integer n => if 0 ≤ n then some n.toNat else none
  | _ => none

/-- The settings with one entry taken into account. -/
def addEntry? (s : Settings) (e : String × Toml) : Option Settings :=
  if e.1 = "include_external" then
    (flagOf? e.2).map fun b => { s with includeExternal := b }
  else if e.1 = "linkage" then (linkageOf? e.2).map fun l => { s with linkage := l }
  else if e.1 = "cohesion_threshold" then
    (thresholdOf? e.2).map fun x => { s with cohesionThreshold := x }
  else if e.1 = "threads" then (threadsOf? e.2).map fun n => { s with threads := some n }
  else none

/-- The settings of a table. -/
def ofEntries? (entries : Toml.Entries) : Option Settings :=
  entries.foldlM addEntry? {}

/-- The settings of a document. -/
def ofText? (text : String) : Option Settings :=
  (readToml? text).bind ofEntries?

end Settings

end ModuleRecovery
