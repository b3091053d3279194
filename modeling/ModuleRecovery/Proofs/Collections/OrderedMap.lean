import Mathlib.Data.List.Induction
import ModuleRecovery.Collections.OrderedMap
import ModuleRecovery.Proofs.Collections.OrderedSet

set_option relaxedAutoImplicit false
set_option autoImplicit false

/-!
# Entries of a map

No key of a map occurs twice, so its entries are its keys with the values that a look-up
finds.

## Main results

* `ModuleRecovery.OrderedMap.get?_eq_some_iff` — a look-up finds the entries.
* `ModuleRecovery.OrderedMap.entries_eq_map_keys` — the entries by their keys.
* `ModuleRecovery.OrderedMap.values_upsert_of_position?`,
  `ModuleRecovery.OrderedMap.values_upsert_of_notMem` — what a change does to the values.
* `ModuleRecovery.OrderedMap.getElem?_values_of_position?` — the value at the position of a key.
* `ModuleRecovery.OrderedMap.get?_ofList`, `ModuleRecovery.OrderedMap.keys_ofList` — a map
  collected from a list holds the last value of each key, at the place of the first one.
-/

universe u v

namespace ModuleRecovery.OrderedMap

variable {κ : Type u} {ν : Type v} [DecidableEq κ]

theorem lookup_eq_some_iff {es : List (κ × ν)} (h : (es.map Prod.fst).Nodup) {k : κ} {v : ν} :
    lookup k es = some v ↔ (k, v) ∈ es := by
  induction es with
  | nil => simp [lookup]
  | cons e es ih =>
    obtain ⟨j, w⟩ := e
    obtain ⟨hj, hes⟩ := List.nodup_cons.1 h
    by_cases hjk : j = k
    · subst hjk
      have hnot : (j, v) ∉ es := fun hmem => hj (List.mem_map.2 ⟨(j, v), hmem, rfl⟩)
      simp [lookup, hnot, eq_comm]
    · simp [lookup, hjk, Ne.symm hjk, ih hes]

/-- A look-up finds a value exactly if the key has it in an entry. -/
theorem get?_eq_some_iff (m : OrderedMap κ ν) {k : κ} {v : ν} :
    m.get? k = some v ↔ (k, v) ∈ m.entries :=
  lookup_eq_some_iff m.nodup

/-- The entries of a map are its keys with the values that a look-up finds. -/
theorem entries_eq_map_keys (m : OrderedMap κ ν) (d : ν) :
    m.entries = m.keys.toList.map fun k => (k, (m.get? k).getD d) := by
  rw [keys, List.map_map]
  refine (List.map_id m.entries).symm.trans (List.map_congr_left fun e he => ?_)
  rw [Function.comp_apply, m.get?_eq_some_iff.2 he]
  rfl

theorem mem_values_iff (m : OrderedMap κ ν) {v : ν} : v ∈ m.values ↔ ∃ k, m.get? k = some v := by
  rw [values, List.mem_map]
  constructor
  · rintro ⟨e, he, rfl⟩
    exact ⟨e.1, m.get?_eq_some_iff.2 he⟩
  · rintro ⟨k, hk⟩
    exact ⟨(k, v), m.get?_eq_some_iff.1 hk, rfl⟩

theorem mem_keys_iff (m : OrderedMap κ ν) {k : κ} : k ∈ m.keys ↔ ∃ v, m.get? k = some v := by
  rw [OrderedSet.mem_def, keys, List.mem_map]
  constructor
  · rintro ⟨e, he, rfl⟩
    exact ⟨e.2, m.get?_eq_some_iff.2 he⟩
  · rintro ⟨v, hv⟩
    exact ⟨(k, v), m.get?_eq_some_iff.1 hv, rfl⟩

/-- The values are what a look-up finds for the keys, one after the other. -/
theorem map_get?_keys (m : OrderedMap κ ν) : m.keys.toList.map m.get? = m.values.map some := by
  rw [keys, values, List.map_map, List.map_map]
  exact List.map_congr_left fun e he => m.get?_eq_some_iff.2 he

/-! ## Values by positions -/

theorem map_snd_change_of_findIdx? {k : κ} {i : Nat} {es : List (κ × ν)}
    (h : (es.map Prod.fst).findIdx? (· = k) = some i) (f : Option ν → ν) :
    (change k f es).map Prod.snd = (es.map Prod.snd).modify i (f ∘ some) := by
  induction es generalizing i with
  | nil => cases h
  | cons e es ih =>
    obtain ⟨j, v⟩ := e
    rw [List.map_cons, List.findIdx?_cons] at h
    by_cases hj : j = k
    · obtain rfl : 0 = i := by simpa [hj] using h
      simp [change, hj]
    · rw [if_neg (by simpa using hj)] at h
      obtain ⟨i, hi, rfl⟩ := Option.map_eq_some_iff.1 h
      simp [change, hj, ih hi]

/-- **A change of a known key changes the value at its position.** -/
theorem values_upsert_of_position? {m : OrderedMap κ ν} {k : κ} {i : Nat}
    (h : m.keys.position? k = some i) (f : Option ν → ν) :
    (m.upsert k f).values = m.values.modify i (f ∘ some) :=
  map_snd_change_of_findIdx? h f

/-- The value at the position of a key is what a look-up finds. -/
theorem getElem?_values_of_position? {m : OrderedMap κ ν} {k : κ} {i : Nat}
    (h : m.keys.position? k = some i) : m.values[i]? = m.get? k := by
  rw [OrderedSet.position?_eq_some_iff, OrderedSet.get?, keys, List.getElem?_map] at h
  obtain ⟨e, he, rfl⟩ := Option.map_eq_some_iff.1 h
  rw [values, List.getElem?_map, he, m.get?_eq_some_iff.2 (List.mem_of_getElem? he)]
  rfl

theorem change_of_notMem {k : κ} {es : List (κ × ν)} (h : k ∉ es.map Prod.fst)
    (f : Option ν → ν) : change k f es = es ++ [(k, f none)] := by
  induction es with
  | nil => rfl
  | cons e es ih =>
    obtain ⟨j, v⟩ := e
    rw [List.map_cons, List.mem_cons, not_or] at h
    rw [change, if_neg (Ne.symm h.1), ih h.2, List.cons_append]

/-- **The value of a new key comes last.** -/
theorem values_upsert_of_notMem {m : OrderedMap κ ν} {k : κ} (h : k ∉ m.keys)
    (f : Option ν → ν) : (m.upsert k f).values = m.values ++ [f none] := by
  show (change k f m.entries).map Prod.snd = m.values ++ [f none]
  rw [change_of_notMem h, List.map_append]
  rfl

/-! ## Collected lists -/

/-- One more entry at the end of a list is one more key to set. -/
theorem ofList_concat (l : List (κ × ν)) (e : κ × ν) :
    ofList (l ++ [e]) = (ofList l).insert e.1 e.2 := by
  rw [ofList, List.foldl_append]
  rfl

/-- **A map collected from a list holds the last value of each key.** -/
theorem get?_ofList (l : List (κ × ν)) (k : κ) :
    (ofList l).get? k = (l.filter (·.1 = k)).getLast?.map Prod.snd := by
  induction l using List.reverseRecOn with
  | nil => rfl
  | append_singleton l e ih =>
    rw [ofList_concat, insert, get?_upsert, List.filter_append]
    by_cases h : e.1 = k
    · simp [h]
    · simp [h, Ne.symm h, ih]

/-- **It holds the keys in order of first occurrence.** -/
theorem keys_ofList (l : List (κ × ν)) : (ofList l).keys = .ofList (l.map Prod.fst) := by
  induction l using List.reverseRecOn with
  | nil => rfl
  | append_singleton l e ih =>
    rw [ofList_concat, insert, keys_upsert, ih, List.map_append, List.map_singleton,
      OrderedSet.ofList_concat]

end ModuleRecovery.OrderedMap
