import ModuleRecovery.Partition

set_option relaxedAutoImplicit false
set_option autoImplicit false

/-!
# Labels and colours of drawings

A drawing is a text in the DOT language, built from lines. A label stands between quotes; a
quote, a backslash or a line feed inside it is escaped by a backslash, so that a label never
ends early and never leaves its line.

## Main definitions

* `ModuleRecovery.escapeLabel` — a label with its escapes.
* `ModuleRecovery.quoted` — a label between quotes.
* `ModuleRecovery.moduleColor` — the colour of a module.
-/

namespace ModuleRecovery

/-- A character of a label, escaped where needed. -/
def escapeChar (c : Char) : List Char :=
  if c = '\\' then ['\\', '\\']
  else if c = '"' then ['\\', '"']
  else if c = '\n' then ['\\', 'n']
  else [c]

/-- A label with its escapes. -/
def escapeLabel (label : String) : String :=
  String.ofList (label.toList.flatMap escapeChar)

/-- A label between quotes. -/
def quoted (label : String) : String :=
  "\"" ++ escapeLabel label ++ "\""

/-- The lines of a drawing, one below the other. -/
def joinLines (lines : List String) : String :=
  String.intercalate "\n" lines

/-- The colours of modules, taken in turn. -/
def moduleColors : List String :=
  ["#a6e3a1", "#89b4fa", "#f9e2af", "#cba6f7", "#f38ba8", "#94e2d5"]

/-- The colour of what belongs to no module. -/
def unassignedColor : String :=
  "#ffffff"

/-- The colour of the module at a position. -/
def moduleColor (i : Nat) : String :=
  moduleColors[i % moduleColors.length]?.getD unassignedColor

/-- The colour of an item: that of the first module containing it. -/
def colorOf (partition : Option (Partition String)) (item : String) : String :=
  match partition.bind (·.moduleOf? item) with
  | some i => moduleColor i
  | none => unassignedColor

end ModuleRecovery
