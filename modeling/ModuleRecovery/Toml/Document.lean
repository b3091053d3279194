import ModuleRecovery.Toml.Scalar

set_option relaxedAutoImplicit false
set_option autoImplicit false

/-!
# TOML documents

A document is a sequence of lines: key-value pairs, headers, comments and empty lines. A
pair belongs to the table of the header above it.

## Main definitions

* `ModuleRecovery.readTomlValue?` — read a value.
* `ModuleRecovery.readToml?` — the entries of the outermost table of a document.
-/

namespace ModuleRecovery

/-- A text whose lines end in a single line feed. -/
def singleLineFeeds : List Char → List Char
  | [] => []
  | '\r' :: '\n' :: s => '\n' :: singleLineFeeds s
  | c :: s => c :: singleLineFeeds s

/-- A text without the blanks it starts with. -/
def dropTomlBlanks (s : List Char) : List Char :=
  s.dropWhile isTomlBlank

/-- A text without the comment it starts with, if it starts with one. -/
def dropComment : List Char → List Char
  | '#' :: s => s.dropWhile isTomlText
  | s => s

/-- The text behind the end of a line, before which a comment may stand. -/
def endOfLine? (s : List Char) : Option (List Char) :=
  match dropComment (dropTomlBlanks s) with
  | [] => some []
  | '\n' :: s => some s
  | _ => none

/-- A text without the blanks, comments and line feeds it starts with. -/
def dropEmptyLines : Nat → List Char → List Char
  | 0, s => s
  | fuel + 1, s =>
    match dropComment (dropTomlBlanks s) with
    | '\n' :: s => dropEmptyLines fuel s
    | s => s

/-- Whether a character may stand in a key without quotes. -/
def isBareKeyChar (c : Char) : Bool :=
  c.isAlphanum || c = '_' || c = '-'

/-- Read one part of a dotted key. -/
def readSimpleKey? (s : List Char) : Option (String × List Char) :=
  match s with
  | '"' :: _ | '\'' :: _ => (readLineString? s).map fun p => (String.ofList p.1, p.2)
  | _ =>
    let (name, rest) := s.span isBareKeyChar
    if name.isEmpty then none else some (String.ofList name, rest)

/-- Read a dotted key of at most `bound` parts, with the blanks around its parts. The parts
before the last one, and the last one. -/
def readKey? : Nat → List Char → Option ((List String × String) × List Char)
  | 0, _ => none
  | bound + 1, s => do
    let (first, s) ← readSimpleKey? (dropTomlBlanks s)
    match dropTomlBlanks s with
    | '.' :: s =>
      let ((path, last), s) ← readKey? bound s
      return ((first :: path, last), s)
    | s => return (([], first), s)

mutual

/-- Read a value in at most `fuel` steps. -/
def readTomlValue? : Nat → List Char → Option (Toml × List Char)
  | 0, _ => none
  | _ + 1, [] => none
  | fuel + 1, c :: s =>
    if c = '"' || c = '\'' then
      (readTomlString? (c :: s)).map fun p => (.string (String.ofList p.1), p.2)
    else if c = '[' then
      (readTomlItems? fuel s).map fun p => (.array p.1, p.2)
    else if c = '{' then
      match dropTomlBlanks s with
      | '}' :: s => some (.table .inline [], s)
      | s => (readTomlPairs? fuel [] s).map fun p => (.table .inline p.1, p.2)
    else if ['t', 'r', 'u', 'e'].isPrefixOf (c :: s) then some (.boolean true, s.drop 3)
    else if ['f', 'a', 'l', 's', 'e'].isPrefixOf (c :: s) then some (.boolean false, s.drop 4)
    else readTomlNumber? (c :: s)

/-- Read the items of a list, up to and with the closing bracket. Items may stand on several
lines, and a comma may follow the last one. -/
def readTomlItems? : Nat → List Char → Option (List Toml × List Char)
  | 0, _ => none
  | fuel + 1, s => do
    match dropEmptyLines (s.length + 1) s with
    | ']' :: s => some ([], s)
    | s =>
      let (item, s) ← readTomlValue? fuel s
      match dropEmptyLines (s.length + 1) s with
      | ',' :: s => (readTomlItems? fuel s).map fun p => (item :: p.1, p.2)
      | ']' :: s => some ([item], s)
      | _ => none

/-- Read the pairs of an inline table behind the given ones, up to and with the closing
brace. -/
def readTomlPairs? : Nat → Toml.Entries → List Char → Option (Toml.Entries × List Char)
  | 0, _, _ => none
  | fuel + 1, entries, s => do
    let ((path, key), s) ← readKey? (s.length + 1) s
    match s with
    | '=' :: s =>
      let (v, s) ← readTomlValue? fuel (dropTomlBlanks s)
      let entries ← Toml.insertKey? path key v entries
      match dropTomlBlanks s with
      | ',' :: s => readTomlPairs? fuel entries s
      | '}' :: s => some (entries, s)
      | _ => none
    | _ => none

end

/-- A document of which a part was read: its entries, and the path of the header that the next
pair belongs to. -/
structure TomlState where
  /-- The entries of the outermost table. -/
  entries : Toml.Entries := []
  /-- The path of the last header. -/
  header : List String := []

/-- Read one line that is not empty. -/
def readTomlLine? (state : TomlState) (s : List Char) : Option (TomlState × List Char) := do
  match s with
  | '[' :: '[' :: s =>
    let ((path, key), s) ← readKey? (s.length + 1) s
    match s with
    | ']' :: ']' :: s =>
      let entries ← Toml.openItem? path key state.entries
      return (⟨entries, path ++ [key]⟩, ← endOfLine? s)
    | _ => none
  | '[' :: s =>
    let ((path, key), s) ← readKey? (s.length + 1) s
    match s with
    | ']' :: s =>
      let entries ← Toml.openTable? path key state.entries
      return (⟨entries, path ++ [key]⟩, ← endOfLine? s)
    | _ => none
  | s =>
    let ((path, key), s) ← readKey? (s.length + 1) s
    match s with
    | '=' :: s =>
      let (v, s) ← readTomlValue? (2 * s.length + 2) (dropTomlBlanks s)
      let entries ←
        Toml.adjust? .implied state.header (Toml.insertKey? path key v) state.entries
      return (⟨entries, state.header⟩, ← endOfLine? s)
    | _ => none

/-- Read the lines of a document, at most `bound` of them. -/
def readTomlLines? : Nat → TomlState → List Char → Option Toml.Entries
  | 0, _, _ => none
  | bound + 1, state, s =>
    match dropEmptyLines (s.length + 1) s with
    | [] => some state.entries
    | s => do
      let (state, s) ← readTomlLine? state s
      readTomlLines? bound state s

/-- The entries of the outermost table of a document, before which a byte-order mark may
stand. -/
def readToml? (text : String) : Option Toml.Entries :=
  let s := match text.toList with
    | '\ufeff' :: s => s
    | s => s
  let lines := singleLineFeeds s
  readTomlLines? (lines.length + 1) {} lines

end ModuleRecovery
