set_option relaxedAutoImplicit false
set_option autoImplicit false

/-!
# Sets that remember insertion order

The order in which nodes are met decides ties later on, so a set of nodes is a list
without repetitions: a new item goes to the end, and no insertion moves an item that is
already there.

## Main definitions

* `ModuleRecovery.OrderedSet` — a list without repetitions.
* `ModuleRecovery.OrderedSet.insertAt` — insertion that tells the item's position and
  whether the item is new.

## Main results

* `ModuleRecovery.OrderedSet.toList_insert` — what an insertion does to the list.
* `ModuleRecovery.OrderedSet.mem_ofList` — collecting a list keeps its items.
-/

universe u

namespace ModuleRecovery

/-- A set whose items are kept in the order of their first insertion. -/
structure OrderedSet (α : Type u) where
  /-- The items, oldest first. -/
  toList : List α := []
  /-- No item occurs twice. -/
  nodup : toList.Nodup := by simp

namespace OrderedSet

variable {α : Type u}

instance : EmptyCollection (OrderedSet α) := ⟨{}⟩

instance : Inhabited (OrderedSet α) := ⟨∅⟩

instance : Membership α (OrderedSet α) := ⟨fun s a => a ∈ s.toList⟩

/-- How many items the set holds. -/
def size (s : OrderedSet α) : Nat :=
  s.toList.length

/-- Whether the set holds no item. -/
def isEmpty (s : OrderedSet α) : Bool :=
  s.toList.isEmpty

/-- The item at a position. -/
def get? (s : OrderedSet α) (i : Nat) : Option α :=
  s.toList[i]?

@[ext] theorem ext {s t : OrderedSet α} (h : s.toList = t.toList) : s = t := by
  cases s
  cases t
  simpa using h

theorem mem_def {a : α} {s : OrderedSet α} : a ∈ s ↔ a ∈ s.toList := Iff.rfl

@[simp] theorem toList_empty : (∅ : OrderedSet α).toList = [] := rfl

variable [DecidableEq α]

/-- Whether `a` is an item. -/
def contains (s : OrderedSet α) (a : α) : Bool :=
  decide (a ∈ s.toList)

instance (a : α) (s : OrderedSet α) : Decidable (a ∈ s) :=
  inferInstanceAs (Decidable (a ∈ s.toList))

/-- The position of an item. -/
def position? (s : OrderedSet α) (a : α) : Option Nat :=
  s.toList.findIdx? (· = a)

/-- Add `a` at the end, unless it is there already. -/
def insert (s : OrderedSet α) (a : α) : OrderedSet α :=
  if h : a ∈ s.toList then s else
    { toList := s.toList ++ [a]
      nodup := List.nodup_append.2 ⟨s.nodup, by simp, by
        rintro b hb c hc rfl
        simp only [List.mem_singleton] at hc
        exact h (hc ▸ hb)⟩ }

/-- Add `a`, and tell its position and whether it is new. -/
def insertAt (s : OrderedSet α) (a : α) : OrderedSet α × Nat × Bool :=
  match s.position? a with
  | some i => (s, i, false)
  | none => (s.insert a, s.size, true)

/-- Collect the items of a list, each at its first occurrence. -/
def ofList (l : List α) : OrderedSet α :=
  l.foldl insert ∅

theorem toList_insert (s : OrderedSet α) (a : α) :
    (s.insert a).toList = if a ∈ s.toList then s.toList else s.toList ++ [a] := by
  unfold insert
  split <;> rfl

@[simp] theorem mem_insert {s : OrderedSet α} {a b : α} : b ∈ s.insert a ↔ b ∈ s ∨ b = a := by
  simp only [mem_def, toList_insert]
  split
  next h => exact ⟨Or.inl, fun hb => hb.elim id fun e => e ▸ h⟩
  next => simp

/-- An item that is there already is not added again. -/
theorem insert_of_mem {s : OrderedSet α} {a : α} (h : a ∈ s) : s.insert a = s := by
  ext1
  rw [toList_insert, if_pos (mem_def.1 h)]

theorem mem_foldl_insert {l : List α} {s : OrderedSet α} {a : α} :
    a ∈ l.foldl insert s ↔ a ∈ s ∨ a ∈ l := by
  induction l generalizing s with
  | nil => simp
  | cons b l ih => simp [ih, or_assoc]

/-- Collecting a list keeps exactly its items. -/
@[simp] theorem mem_ofList {l : List α} {a : α} : a ∈ ofList l ↔ a ∈ l := by
  rw [ofList, mem_foldl_insert]
  simp [mem_def]

end OrderedSet

end ModuleRecovery
