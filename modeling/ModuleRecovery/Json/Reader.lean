import ModuleRecovery.Json.Number
import ModuleRecovery.Text.Hexadecimal

set_option relaxedAutoImplicit false
set_option autoImplicit false

/-!
# Reading JSON values

A value is read off the front of a text. Lists and objects may be nested at most
`jsonDepth` deep, a number must not be too great, and a surrogate in a string must have its
partner. A value that nobody asks for is read leniently: it has to be well formed, but none
of these limits applies to it.

## Main definitions

* `ModuleRecovery.JsonReader` — readers of the front of a text.
* `ModuleRecovery.readString` — read a string behind its opening quote.
* `ModuleRecovery.readJson`, `ModuleRecovery.skipJson` — read a value, strictly or leniently.
-/

namespace ModuleRecovery

/-- A reader takes what it reads off the front of a text. -/
abbrev JsonReader (α : Type) :=
  StateT (List Char) (Except JsonFault) α

/-- How deep lists and objects may be nested. -/
def jsonDepth : Nat :=
  127

/-- Whether a character may stand between the tokens of a document. -/
def isJsonBlank (c : Char) : Bool :=
  c = ' ' || c = '\t' || c = '\n' || c = '\r'

/-- A text without the blanks it starts with. -/
def dropJsonBlanks (s : List Char) : List Char :=
  s.dropWhile isJsonBlank

/-- The text behind `word`, which has to stand at its front. -/
def expectWord (word : List Char) (s : List Char) : Except JsonFault (List Char) :=
  if word.isPrefixOf s then .ok (s.drop word.length) else .error .malformed

/-- What a backslash and the given character stand for. -/
def shortEscape? (c : Char) : Option Char :=
  if c = '"' || c = '\\' || c = '/' then some c
  else if c = 'b' then some '\x08'
  else if c = 'f' then some '\x0c'
  else if c = 'n' then some '\n'
  else if c = 'r' then some '\r'
  else if c = 't' then some '\t'
  else none

/-- Whether a number is the first half of a surrogate pair. -/
def isHighSurrogate (n : Nat) : Bool :=
  0xD800 ≤ n && n < 0xDC00

/-- Whether a number is the second half of a surrogate pair. -/
def isLowSurrogate (n : Nat) : Bool :=
  0xDC00 ≤ n && n < 0xE000

/-- The character of a surrogate pair. -/
def ofSurrogates (high low : Nat) : Char :=
  Char.ofNat (0x10000 + (high - 0xD800) * 0x400 + (low - 0xDC00))

/-- Read the rest of a string, up to and with its closing quote. -/
def readString (lenient : Bool) : List Char → Except JsonFault (List Char × List Char)
  | [] => .error .malformed
  | c :: s =>
    if c = '"' then .ok ([], s)
    else if c = '\\' then
      match s with
      | [] => .error .malformed
      | e :: s =>
        match shortEscape? e with
        | some d => (readString lenient s).map fun p => (d :: p.1, p.2)
        | none =>
          match e, s with
          | 'u', a :: b :: c :: d :: s =>
            match hexNumber? [a, b, c, d] with
            | none => .error .malformed
            | some n =>
              if lenient then readString lenient s
              else if isHighSurrogate n then
                match s with
                | '\\' :: 'u' :: a :: b :: c :: d :: s =>
                  match hexNumber? [a, b, c, d] with
                  | none => .error .malformed
                  | some m =>
                    if isLowSurrogate m then
                      (readString lenient s).map fun p => (ofSurrogates n m :: p.1, p.2)
                    else .error .malformed
                | _ => .error .malformed
              else if isLowSurrogate n then .error .malformed
              else (readString lenient s).map fun p => (Char.ofNat n :: p.1, p.2)
          | _, _ => .error .malformed
    else if c.toNat < 0x20 then .error .malformed
    else (readString lenient s).map fun p => (c :: p.1, p.2)

/-- Read a number. -/
def readNumber (lenient : Bool) (s : List Char) : Except JsonFault (JsonNumber × List Char) :=
  match scanNumber s with
  | none => .error .malformed
  | some (token, rest) =>
    match token.value? with
    | some n => .ok (n, rest)
    | none => if lenient then .ok (.real positiveInfinity, rest) else .error .malformed

mutual

/-- Read a value that may be nested `room` deep, in at most `fuel` steps. -/
def readValue (lenient : Bool) :
    Nat → Nat → List Char → Except JsonFault (Json × List Char)
  | 0, _, _ => .error .malformed
  | fuel + 1, room, s =>
    match dropJsonBlanks s with
    | [] => .error .malformed
    | c :: s =>
      if c = 'n' then (expectWord ['u', 'l', 'l'] s).map (Json.null, ·)
      else if c = 't' then (expectWord ['r', 'u', 'e'] s).map (Json.bool true, ·)
      else if c = 'f' then (expectWord ['a', 'l', 's', 'e'] s).map (Json.bool false, ·)
      else if c = '"' then
        (readString lenient s).map fun p => (.string (String.ofList p.1), p.2)
      else if c = '[' then
        match room, dropJsonBlanks s with
        | 0, _ => .error .malformed
        | _ + 1, ']' :: s => .ok (.array [], s)
        | room + 1, s => (readItems lenient fuel room s).map fun p => (.array p.1, p.2)
      else if c = '{' then
        match room, dropJsonBlanks s with
        | 0, _ => .error .malformed
        | _ + 1, '}' :: s => .ok (.object [], s)
        | room + 1, s => (readMembers lenient fuel room s).map fun p => (.object p.1, p.2)
      else (readNumber lenient (c :: s)).map fun p => (.number p.1, p.2)

/-- Read the items of a list that is not empty, up to and with the closing bracket. -/
def readItems (lenient : Bool) :
    Nat → Nat → List Char → Except JsonFault (List Json × List Char)
  | 0, _, _ => .error .malformed
  | fuel + 1, room, s => do
    let (item, s) ← readValue lenient fuel room s
    match dropJsonBlanks s with
    | ',' :: s => (readItems lenient fuel room s).map fun p => (item :: p.1, p.2)
    | ']' :: s => .ok ([item], s)
    | _ => .error .malformed

/-- Read the members of an object that is not empty, up to and with the closing brace. -/
def readMembers (lenient : Bool) :
    Nat → Nat → List Char → Except JsonFault (List (String × Json) × List Char)
  | 0, _, _ => .error .malformed
  | fuel + 1, room, s => do
    match dropJsonBlanks s with
    | '"' :: s =>
      let (name, s) ← readString lenient s
      match dropJsonBlanks s with
      | ':' :: s =>
        let (value, s) ← readValue lenient fuel room s
        let member := (String.ofList name, value)
        match dropJsonBlanks s with
        | ',' :: s => (readMembers lenient fuel room s).map fun p => (member :: p.1, p.2)
        | '}' :: s => .ok ([member], s)
        | _ => .error .malformed
      | _ => .error .malformed
    | _ => .error .malformed

end

/-- Read a value that may be nested `room` deep. Every step or the step behind it takes a
character off the text, which bounds their number. -/
def readJson (room : Nat) : JsonReader Json := fun s =>
  readValue false (2 * s.length + 2) room s

/-- Read a value that nobody asks for. -/
def skipJson : JsonReader Unit := fun s =>
  (readValue true (2 * s.length + 2) (s.length + 1) s).map fun p => ((), p.2)

/-- Check that only blanks are left. -/
def expectEnd (s : List Char) : Except JsonFault Unit :=
  if (dropJsonBlanks s).isEmpty then .ok () else .error .malformed

end ModuleRecovery
