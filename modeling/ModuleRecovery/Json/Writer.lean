import ModuleRecovery.Json.Value

set_option relaxedAutoImplicit false
set_option autoImplicit false

/-!
# Writing JSON values

A value is written either without any blanks, or with each item and each member on a line of
its own, indented by two spaces for each level.

## Main definitions

* `ModuleRecovery.Json.compact` — a value without blanks.
* `ModuleRecovery.Json.pretty` — a value on several lines.
-/

namespace ModuleRecovery

/-- A hexadecimal digit. -/
def hexDigit (n : Nat) : Char :=
  Nat.digitChar n

/-- A character inside a string, escaped where needed. -/
def escapeJsonChar (c : Char) : List Char :=
  if c = '"' then ['\\', '"']
  else if c = '\\' then ['\\', '\\']
  else if c = '\x08' then ['\\', 'b']
  else if c = '\x0c' then ['\\', 'f']
  else if c = '\n' then ['\\', 'n']
  else if c = '\r' then ['\\', 'r']
  else if c = '\t' then ['\\', 't']
  else if c.toNat < 0x20 then
    ['\\', 'u', '0', '0', hexDigit (c.toNat / 16), hexDigit (c.toNat % 16)]
  else [c]

/-- A string between quotes, with its escapes. -/
def jsonString (s : String) : List Char :=
  '"' :: (s.toList.flatMap escapeJsonChar ++ ['"'])

namespace JsonNumber

/-- A number; what is no finite number is written as `null`. -/
def write : JsonNumber → List Char
  | natural n => decimalDigits n
  | negative n => '-' :: decimalDigits n
  | real x => if x.isFinite then (NumberLayout.report.write x).toList else ['n', 'u', 'l', 'l']

end JsonNumber

/-- A new line with the indentation of a level. -/
def newLine (level : Nat) : List Char :=
  '\n' :: List.replicate (2 * level) ' '

namespace Json

/-- The number `x` as a value. -/
def ofFloat (x : Float) : Json :=
  .number (.real x)

/-- A list of strings as a value. -/
def ofStrings (l : List String) : Json :=
  .array (l.map .string)

/-- A value that may be missing. -/
def ofOption {α : Type} (f : α → Json) : Option α → Json
  | none => .null
  | some a => f a

/-- The words for truth values. -/
def boolText (b : Bool) : List Char :=
  if b then ['t', 'r', 'u', 'e'] else ['f', 'a', 'l', 's', 'e']

mutual

/-- A value without blanks. -/
def compact : Json → List Char
  | null => ['n', 'u', 'l', 'l']
  | bool b => boolText b
  | number n => n.write
  | string s => jsonString s
  | array items => '[' :: compactItems items
  | object members => '{' :: compactMembers members

/-- The items of a list, with the closing bracket. -/
def compactItems : List Json → List Char
  | [] => [']']
  | [v] => compact v ++ [']']
  | v :: w :: items => compact v ++ ',' :: compactItems (w :: items)

/-- The members of an object, with the closing brace. -/
def compactMembers : List (String × Json) → List Char
  | [] => ['}']
  | [(name, v)] => jsonString name ++ ':' :: (compact v ++ ['}'])
  | (name, v) :: m :: members =>
    jsonString name ++ ':' :: (compact v ++ ',' :: compactMembers (m :: members))

end

mutual

/-- A value on several lines, inside the given number of levels. -/
def pretty (level : Nat) : Json → List Char
  | null => ['n', 'u', 'l', 'l']
  | bool b => boolText b
  | number n => n.write
  | string s => jsonString s
  | array [] => ['[', ']']
  | array (v :: items) => '[' :: prettyItems level (v :: items)
  | object [] => ['{', '}']
  | object (m :: members) => '{' :: prettyMembers level (m :: members)

/-- The items of a list, each on its lines, with the closing bracket. -/
def prettyItems (level : Nat) : List Json → List Char
  | [] => newLine level ++ [']']
  | [v] => newLine (level + 1) ++ pretty (level + 1) v ++ prettyItems level []
  | v :: w :: items =>
    newLine (level + 1) ++ pretty (level + 1) v ++ ',' :: prettyItems level (w :: items)

/-- The members of an object, each on its lines, with the closing brace. -/
def prettyMembers (level : Nat) : List (String × Json) → List Char
  | [] => newLine level ++ ['}']
  | [(name, v)] =>
    newLine (level + 1) ++ jsonString name ++ ':' :: ' ' :: pretty (level + 1) v ++
      prettyMembers level []
  | (name, v) :: m :: members =>
    newLine (level + 1) ++ jsonString name ++ ':' :: ' ' :: pretty (level + 1) v ++
      ',' :: prettyMembers level (m :: members)

end

end Json

end ModuleRecovery
