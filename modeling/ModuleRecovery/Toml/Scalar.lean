import ModuleRecovery.Decimal.Reader
import ModuleRecovery.Text.Hexadecimal
import ModuleRecovery.Toml.Value

set_option relaxedAutoImplicit false
set_option autoImplicit false

/-!
# Strings and numbers of TOML documents

All readers here work on texts whose lines end in a single line feed.

## Main definitions

* `ModuleRecovery.readTomlString?` — read a string of any of the four kinds.
* `ModuleRecovery.readTomlNumber?` — read an integer or a floating-point number.
-/

namespace ModuleRecovery

/-- Whether a character is a blank inside a line. -/
def isTomlBlank (c : Char) : Bool :=
  c = ' ' || c = '\t'

/-- Whether a character may stand in a comment or in a string as it is. -/
def isTomlText (c : Char) : Bool :=
  c = '\t' || (0x20 ≤ c.toNat && c.toNat ≠ 0x7F)

/-- The character with a number given in hexadecimal digits. -/
def escapedChar? (digits : List Char) : Option Char := do
  let n ← hexNumber? digits
  if h : n.isValidChar then some (Char.ofNatAux n h) else none

/-- Read what stands behind a backslash. -/
def readTomlEscape? : List Char → Option (Char × List Char)
  | 'b' :: s => some ('\x08', s)
  | 't' :: s => some ('\t', s)
  | 'n' :: s => some ('\n', s)
  | 'f' :: s => some ('\x0c', s)
  | 'r' :: s => some ('\r', s)
  | '"' :: s => some ('"', s)
  | '\\' :: s => some ('\\', s)
  | 'u' :: s =>
    if s.length < 4 then none else (escapedChar? (s.take 4)).map (·, s.drop 4)
  | 'U' :: s =>
    if s.length < 8 then none else (escapedChar? (s.take 8)).map (·, s.drop 8)
  | _ => none

/-- Read the rest of a string with escapes, up to and with its closing quote. -/
def readBasic? : Nat → List Char → Option (List Char × List Char)
  | 0, _ => none
  | _ + 1, [] => none
  | fuel + 1, c :: s =>
    if c = '"' then some ([], s)
    else if c = '\\' then do
      let (d, s) ← readTomlEscape? s
      let (tail, s) ← readBasic? fuel s
      return (d :: tail, s)
    else if isTomlText c then do
      let (tail, s) ← readBasic? fuel s
      return (c :: tail, s)
    else none

/-- Read the rest of a string without escapes, up to and with its closing quote. -/
def readLiteral? : List Char → Option (List Char × List Char)
  | [] => none
  | c :: s =>
    if c = '\'' then some ([], s)
    else if isTomlText c then do
      let (tail, s) ← readLiteral? s
      return (c :: tail, s)
    else none

/-- The end of a string over several lines: three quotes, before which up to two quotes belong
to the string. The quotes that belong to it, and the text behind the end. -/
def closing? (quote : Char) (s : List Char) : Option (List Char × List Char) :=
  let count := (s.takeWhile (· = quote)).length
  if count < 3 then none
  else if 5 < count then none
  else some (List.replicate (count - 3) quote, s.drop count)

/-- Read the rest of a string over several lines. A backslash at the end of a line takes off
the line feed and all blanks and line feeds behind it. -/
def readLines? (quote : Char) : Nat → List Char → Option (List Char × List Char)
  | 0, _ => none
  | _ + 1, [] => none
  | fuel + 1, c :: s =>
    match if c = quote then closing? quote (c :: s) else none with
    | some ending => some ending
    | none =>
      if c = '\\' && quote = '"' then
        match s.dropWhile isTomlBlank with
        | '\n' :: rest =>
          readLines? quote fuel (rest.dropWhile fun d => isTomlBlank d || d = '\n')
        | _ => do
          let (d, s) ← readTomlEscape? s
          let (tail, s) ← readLines? quote fuel s
          return (d :: tail, s)
      else if isTomlText c || c = '\n' then do
        let (tail, s) ← readLines? quote fuel s
        return (c :: tail, s)
      else none

/-- A text without the line feed it starts with, if it starts with one. -/
def dropLineFeed : List Char → List Char
  | '\n' :: s => s
  | s => s

/-- Read a string that stays on its line. -/
def readLineString? : List Char → Option (List Char × List Char)
  | '"' :: s => readBasic? (s.length + 1) s
  | '\'' :: s => readLiteral? s
  | _ => none

/-- Read a string. -/
def readTomlString? : List Char → Option (List Char × List Char)
  | '"' :: '"' :: '"' :: s => readLines? '"' (s.length + 1) (dropLineFeed s)
  | '\'' :: '\'' :: '\'' :: s => readLines? '\'' (s.length + 1) (dropLineFeed s)
  | s => readLineString? s

/-- Read digits, between which single underscores may stand. At least one digit is needed. -/
def readDigits? (isDigit : Char → Bool) : List Char → Option (List Char × List Char)
  | [] => none
  | c :: s =>
    if isDigit c then
      match s with
      | '_' :: d :: rest =>
        if isDigit d then
          (readDigits? isDigit (d :: rest)).map fun p => (c :: p.1, p.2)
        else some ([c], s)
      | s =>
        match readDigits? isDigit s with
        | some p => some (c :: p.1, p.2)
        | none => some ([c], s)
    else none

/-- Read the digits of an integer, which starts with a zero only when it is zero. -/
def readWhole? : List Char → Option (List Char × List Char)
  | '0' :: s => some (['0'], s)
  | s => readDigits? Char.isDigit s

/-- An integer that fits into a signed word of 64 bits. -/
def wordInteger? (n : Int) : Option Toml :=
  if -Int.pow 2 63 ≤ n && n < Int.pow 2 63 then some (.integer n) else none

/-- Read the digits of an integer with a base. -/
def readBased? (base : Nat) (s : List Char) : Option (Toml × List Char) := do
  let isDigit (c : Char) : Bool := (hexValue? c).any (· < base)
  let (digits, s) ← readDigits? isDigit s
  let values ← digits.mapM hexValue?
  let v ← wordInteger? (values.foldl (fun n d => base * n + d) 0 : Nat)
  return (v, s)

/-- Read the places behind a point, if there is a point. -/
def readTomlPlaces? : List Char → Option (List Char × List Char)
  | '.' :: s => readDigits? Char.isDigit s
  | s => some ([], s)

/-- Read an exponent, if there is one. -/
def readTomlExponent? : List Char → Option (Option Int × List Char)
  | [] => some (none, [])
  | c :: s =>
    if c = 'e' || c = 'E' then do
      let (negative, s) := takeSign s
      let (digits, s) ← readDigits? Char.isDigit s
      let n : Int := valueOfDigits 0 digits
      return (some (if negative then -n else n), s)
    else some (none, c :: s)

/-- Read a number in decimal digits behind its sign. A floating-point number must not be above
the greatest one. -/
def readTomlDecimal? (negative : Bool) (s : List Char) : Option (Toml × List Char) := do
  let (whole, s) ← readWhole? s
  let (places, s) ← readTomlPlaces? s
  let (exponent, s) ← readTomlExponent? s
  if places.isEmpty && exponent.isNone then
    let n : Int := valueOfDigits 0 whole
    let v ← wordInteger? (if negative then -n else n)
    return (v, s)
  else
    let d : Decimal := ⟨valueOfDigits 0 (whole ++ places), exponent.getD 0 - places.length⟩
    let x := withSign negative d.toFloat
    if x == positiveInfinity then none else some (.float x, s)

/-- Read a number. -/
def readTomlNumber? (s : List Char) : Option (Toml × List Char) :=
  match s with
  | '0' :: 'x' :: s => readBased? 16 s
  | '0' :: 'o' :: s => readBased? 8 s
  | '0' :: 'b' :: s => readBased? 2 s
  | s =>
    let (negative, s) := takeSign s
    match s with
    | 'i' :: 'n' :: 'f' :: s => some (.float (withSign negative positiveInfinity), s)
    | 'n' :: 'a' :: 'n' :: s => some (.float (0 / 0), s)
    | s => readTomlDecimal? negative s

end ModuleRecovery
