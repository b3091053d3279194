set_option relaxedAutoImplicit false
set_option autoImplicit false

/-!
# Blank characters

Names read from a model or typed on a command line are compared after the blank
characters around them have been dropped. A character is blank when it has the Unicode
property `White_Space`; the zero-width characters do not have it.

## Main definitions

* `ModuleRecovery.isBlank` — the property `White_Space`.
* `ModuleRecovery.trim` — a text without the blank characters at its two ends.
-/

namespace ModuleRecovery

/-- The property `White_Space`, as a table of code points. -/
def isBlank (c : Char) : Bool :=
  let n := c.toNat
  (9 ≤ n && n ≤ 13) || n == 0x20 || n == 0x85 || n == 0xA0 || n == 0x1680 ||
    (0x2000 ≤ n && n ≤ 0x200A) || n == 0x2028 || n == 0x2029 || n == 0x202F ||
    n == 0x205F || n == 0x3000

/-- Drop the blank characters a text starts with. -/
def trimStart (s : List Char) : List Char :=
  s.dropWhile isBlank

/-- Drop the blank characters a text ends with. -/
def trimEnd (s : List Char) : List Char :=
  (s.reverse.dropWhile isBlank).reverse

/-- Drop the blank characters at both ends of a text. -/
def trim (s : List Char) : List Char :=
  trimEnd (trimStart s)

/-- A word written in any mixture of ASCII capitals and small letters, in small letters. -/
def lowerCase (s : List Char) : List Char :=
  s.map Char.toLower

end ModuleRecovery
