import ModuleRecovery.Collections.OrderedMap

set_option relaxedAutoImplicit false
set_option autoImplicit false

/-!
# Files of a run

A run reads and writes files in a tree of directories. A path is a sequence of steps, from the
root when it starts with a slash and else from the working directory; every step but the last
has to end in a directory. The root, the directory of the special files, and the working
directory with the one around it are always there.

A special file keeps nothing. Some of them read as empty, and some accept every text.

## Main definitions

* `ModuleRecovery.Place` — a place in the tree.
* `ModuleRecovery.FileStore` — the directories and the files with their contents.
* `ModuleRecovery.FileStore.place?` — the place a path leads to.
* `ModuleRecovery.FileStore.read`, `ModuleRecovery.FileStore.write?` — the contents of a file.
-/

namespace ModuleRecovery

/-- The names that lead from the root to a place in the tree, the innermost name first. -/
abbrev Place :=
  List String

/-- The directory with the special files. -/
def deviceDirectory : Place :=
  ["dev"]

/-- The directory around the working directory. -/
def temporaryDirectory : Place :=
  ["tmp"]

/-- The directory in which a run starts. -/
def workingDirectory : Place :=
  "work" :: temporaryDirectory

/-- A special file. -/
structure Device where
  /-- What is read from it, if reading comes to an end. -/
  contents : Option ByteArray
  /-- Whether it accepts what is written to it. -/
  accepts : Bool

/-- The special files by name: one that is empty and drops what it is given, one that never
ends, one that is full, and the three channels of a run, which gets no input. -/
def devices : List (String × Device) :=
  [("null", ⟨some .empty, true⟩),
   ("zero", ⟨none, true⟩),
   ("full", ⟨none, false⟩),
   ("stdin", ⟨some .empty, true⟩),
   ("stdout", ⟨none, true⟩),
   ("stderr", ⟨none, true⟩)]

/-- The special file at a place. -/
def deviceAt? : Place → Option Device
  | [] => none
  | name :: directory =>
    if directory = deviceDirectory then (devices.find? (·.1 = name)).map Prod.snd else none

/-- The directories that no run may add files to. -/
def closedDirectories : List Place :=
  [[], deviceDirectory]

/-- The directories around a place, the innermost first. -/
def Place.ancestors : Place → List Place
  | [] => []
  | _ :: directory => directory :: ancestors directory

/-- The greatest length of a name, in bytes. -/
def longestName : Nat :=
  255

/-- The greatest length of a path, in bytes. -/
def longestPath : Nat :=
  4095

/-- Directories, and files with their contents. -/
structure FileStore where
  /-- The directories. -/
  directories : List Place := closedDirectories ++ [temporaryDirectory, workingDirectory]
  /-- The contents of the files. -/
  files : OrderedMap Place ByteArray := ∅

namespace FileStore

/-- The place that one step leads to from another place, which has to be a directory. An empty
step and a single dot stay there, two dots lead to the directory around it. -/
def step? (store : FileStore) (place : Place) (name : String) : Option Place :=
  if place ∉ store.directories then none
  else if name = "" || name = "." then some place
  else if name = ".." then some place.tail
  else if name.utf8ByteSize ≤ longestName then some (name :: place)
  else none

/-- The place a path leads to. Nothing needs to be there. -/
def place? (store : FileStore) (path : String) : Option Place :=
  if path.utf8ByteSize ≤ longestPath then
    let start := if path.toList.head? = some '/' then [] else workingDirectory
    ((path.toList.splitOn '/').map String.ofList).foldlM store.step? start
  else none

/-- The contents of the file a path leads to. -/
def read (store : FileStore) (path : String) : Option ByteArray := do
  let place ← store.place? path
  match deviceAt? place with
  | some device => device.contents
  | none => store.files.get? place

/-- Whether a text can be written to a place that has no special file. -/
def isWritable (store : FileStore) (place : Place) : Bool :=
  place ∉ store.directories && place.tail ∉ closedDirectories

/-- The store after a text was written to the file a path leads to, if that is possible. -/
def write? (store : FileStore) (path text : String) : Option FileStore := do
  let place ← store.place? path
  match deviceAt? place with
  | some device => if device.accepts then some store else none
  | none =>
    if store.isWritable place then
      some { store with files := store.files.insert place text.toUTF8 }
    else none

/-- The store with one more file, named from the working directory, and with the directories
around it. -/
def addFile (store : FileStore) (name : String) (contents : ByteArray) : FileStore :=
  let names := (name.toList.splitOn '/').map String.ofList
  let place : Place := names.reverse ++ workingDirectory
  { directories := store.directories ++ place.ancestors
    files := store.files.insert place contents }

end FileStore

end ModuleRecovery
