set_option relaxedAutoImplicit false
set_option autoImplicit false

/-!
# TOML values

A settings file is a TOML document. Dates and times are left out here, because no setting
has one.

A table remembers how it came about, because that decides what may be added to it later: an
inline table is complete, a table with a header takes no dotted keys from elsewhere, and a
table that only lies on the way to another one may still get its own header.

## Main definitions

* `ModuleRecovery.Toml` — a TOML value.
* `ModuleRecovery.Toml.insertKey?` — add a value under a dotted key.
* `ModuleRecovery.Toml.openTable?`, `ModuleRecovery.Toml.openItem?` — the two kinds of header.
-/

namespace ModuleRecovery

/-- How a table came about. -/
inductive TableOrigin where
  /-- It was written between braces. -/
  | inline
  /-- It has a header. -/
  | header
  /-- It lies on the way to a table with a header. -/
  | implied
  /-- It lies on the way to a dotted key. -/
  | dotted
deriving DecidableEq

/-- A TOML value. -/
inductive Toml where
  /-- A string. -/
  | string (s : String)
  /-- An integer. -/
  | integer (n : Int)
  /-- A number with a point or an exponent. -/
  | float (x : Float)
  /-- A truth value. -/
  | boolean (b : Bool)
  /-- A list of values. -/
  | array (items : List Toml)
  /-- A table. -/
  | table (origin : TableOrigin) (entries : List (String × Toml))
  /-- A list of tables, each with a header of its own. -/
  | tables (items : List (List (String × Toml)))

namespace Toml

/-- The entries of a table. -/
abbrev Entries := List (String × Toml)

/-- The value of a key. -/
def find? (entries : Entries) (key : String) : Option Toml :=
  (entries.find? (·.1 = key)).map Prod.snd

/-- Give the key, which is there already, another value. -/
def replace (entries : Entries) (key : String) (v : Toml) : Entries :=
  entries.map fun e => if e.1 = key then (key, v) else e

/-- Change the table at the end of a path of keys. Tables that are missing on the way are
made with the given origin; a list of tables stands for its last one. -/
def adjust? (origin : TableOrigin) :
    List String → (Entries → Option Entries) → Entries → Option Entries
  | [], change, entries => change entries
  | key :: path, change, entries =>
    match find? entries key with
    | none => do
      let inner ← adjust? origin path change []
      return entries ++ [(key, table origin inner)]
    | some (table o inner) =>
      if o = .inline || (o = .header && origin = .dotted) then none
      else do
        let inner ← adjust? origin path change inner
        return replace entries key (table o inner)
    | some (tables items) => do
      let last ← items.getLast?
      let inner ← adjust? origin path change last
      return replace entries key (tables (items.dropLast ++ [inner]))
    | some _ => none

/-- Add a key that is not there yet. -/
def addNew? (key : String) (v : Toml) (entries : Entries) : Option Entries :=
  if (find? entries key).isSome then none else some (entries ++ [(key, v)])

/-- Whether the table at the end of a path was made by dotted keys, or is missing. -/
def isDotted (entries : Entries) : List String → Bool
  | [] => false
  | [key] =>
    match find? entries key with
    | none => true
    | some (table .dotted _) => true
    | some _ => false
  | key :: path =>
    match find? entries key with
    | none => true
    | some (table _ inner) => isDotted inner path
    | some _ => false

/-- Add a value under a dotted key. The table it goes to is one that dotted keys made. -/
def insertKey? (path : List String) (key : String) (v : Toml) (entries : Entries) :
    Option Entries :=
  if path.isEmpty || isDotted entries path then
    adjust? .dotted path (addNew? key v) entries
  else none

/-- Open the table with a header of the given path and key. It must not be there yet, unless
it only lies on the way to another table. -/
def openTable? (path : List String) (key : String) (entries : Entries) : Option Entries :=
  adjust? .implied path
    (fun inner =>
      match find? inner key with
      | none => some (inner ++ [(key, table .header [])])
      | some (table .implied own) =>
        some (inner.filter (·.1 ≠ key) ++ [(key, table .header own)])
      | some _ => none)
    entries

/-- Open the next item of a list of tables. -/
def openItem? (path : List String) (key : String) (entries : Entries) : Option Entries :=
  adjust? .implied path
    (fun inner =>
      match find? inner key with
      | none => some (inner ++ [(key, tables [[]])])
      | some (tables items) => some (replace inner key (tables (items ++ [[]])))
      | some _ => none)
    entries

end Toml

end ModuleRecovery
