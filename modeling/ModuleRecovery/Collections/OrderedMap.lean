import ModuleRecovery.Collections.OrderedSet

set_option relaxedAutoImplicit false
set_option autoImplicit false

/-!
# Maps that remember insertion order

A map is a list of entries with distinct keys. Setting the value of a known key keeps the
key's place, and a new key goes to the end.

## Main definitions

* `ModuleRecovery.OrderedMap` — entries with distinct keys.
* `ModuleRecovery.OrderedMap.upsert` — change the value of a key, or add the key.

## Main results

* `ModuleRecovery.OrderedMap.get?_upsert` — how a change is seen by a look-up.
* `ModuleRecovery.OrderedMap.keys_upsert` — a change inserts its key among the keys.
-/

universe u v

namespace ModuleRecovery

/-- A map whose entries are kept in the order in which their keys were first set. -/
structure OrderedMap (κ : Type u) (ν : Type v) where
  /-- The keys with their values, oldest key first. -/
  entries : List (κ × ν) := []
  /-- No key occurs twice. -/
  nodup : (entries.map Prod.fst).Nodup := by simp

namespace OrderedMap

variable {κ : Type u} {ν : Type v}

instance : EmptyCollection (OrderedMap κ ν) := ⟨{}⟩

instance : Inhabited (OrderedMap κ ν) := ⟨∅⟩

/-- The keys, oldest first. -/
def keys (m : OrderedMap κ ν) : OrderedSet κ where
  toList := m.entries.map Prod.fst
  nodup := m.nodup

/-- The values, in the order of their keys. -/
def values (m : OrderedMap κ ν) : List ν :=
  m.entries.map Prod.snd

/-- How many keys are set. -/
def size (m : OrderedMap κ ν) : Nat :=
  m.entries.length

variable [DecidableEq κ]

/-- The value of the first entry with the given key. -/
def lookup (k : κ) : List (κ × ν) → Option ν
  | [] => none
  | (j, v) :: es => if j = k then some v else lookup k es

/-- Change the first entry with the given key, or add one at the end. -/
def change (k : κ) (f : Option ν → ν) : List (κ × ν) → List (κ × ν)
  | [] => [(k, f none)]
  | (j, v) :: es => if j = k then (j, f (some v)) :: es else (j, v) :: change k f es

theorem map_fst_change (k : κ) (f : Option ν → ν) (es : List (κ × ν)) :
    (change k f es).map Prod.fst =
      if k ∈ es.map Prod.fst then es.map Prod.fst else es.map Prod.fst ++ [k] := by
  induction es with
  | nil => simp [change]
  | cons e es ih =>
    obtain ⟨j, v⟩ := e
    by_cases h : j = k
    · simp [change, h]
    · simp only [change, h, if_false, List.map_cons, ih, List.mem_cons, Ne.symm h, false_or]
      split <;> rfl

theorem lookup_change (k j : κ) (f : Option ν → ν) (es : List (κ × ν)) :
    lookup j (change k f es) = if j = k then some (f (lookup k es)) else lookup j es := by
  induction es with
  | nil =>
    by_cases h : j = k
    · simp [change, lookup, h]
    · simp [change, lookup, h, Ne.symm h]
  | cons e es ih =>
    obtain ⟨i, v⟩ := e
    by_cases hi : i = k
    · by_cases hj : j = k
      · simp [change, lookup, hi, hj]
      · simp [change, lookup, hi, hj, Ne.symm hj]
    · by_cases hj : j = k
      · subst hj
        simp [change, lookup, hi, ih]
      · by_cases hij : i = j
        · subst hij
          simp [change, lookup, hi]
        · simp [change, lookup, hi, hj, hij, ih]

/-- The value of a key. -/
def get? (m : OrderedMap κ ν) (k : κ) : Option ν :=
  lookup k m.entries

/-- Give the key `k` the value `f` makes of the value it has so far, if any. -/
def upsert (m : OrderedMap κ ν) (k : κ) (f : Option ν → ν) : OrderedMap κ ν where
  entries := change k f m.entries
  nodup := by
    rw [map_fst_change]
    exact OrderedSet.toList_insert m.keys k ▸ (m.keys.insert k).nodup

/-- Give the key `k` the value `v`, whatever value it had. -/
def insert (m : OrderedMap κ ν) (k : κ) (v : ν) : OrderedMap κ ν :=
  m.upsert k fun _ => v

/-- Set the keys of a list of entries one after the other. -/
def ofList (l : List (κ × ν)) : OrderedMap κ ν :=
  l.foldl (fun m e => m.insert e.1 e.2) ∅

/-- A changed key is looked up as changed, any other key as before. -/
theorem get?_upsert (m : OrderedMap κ ν) (k j : κ) (f : Option ν → ν) :
    (m.upsert k f).get? j = if j = k then some (f (m.get? k)) else m.get? j :=
  lookup_change k j f m.entries

/-- A change inserts its key among the keys. -/
theorem keys_upsert (m : OrderedMap κ ν) (k : κ) (f : Option ν → ν) :
    (m.upsert k f).keys = m.keys.insert k := by
  ext1
  rw [OrderedSet.toList_insert]
  exact map_fst_change k f m.entries

end OrderedMap

end ModuleRecovery
