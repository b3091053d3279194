import Mathlib.Data.List.Basic
import Mathlib.Data.List.Induction
import ModuleRecovery.Collections.OrderedSet

set_option relaxedAutoImplicit false
set_option autoImplicit false

/-!
# The order of a collected list

Collecting the items of a list drops repetitions, and keeps the order in which the items
occur first. Dropping the items without a property does not change the order of the others,
so it may come before or after.

## Main definitions

* `ModuleRecovery.OrderedSet.Precedes` — one item stands before another.

## Main results

* `ModuleRecovery.OrderedSet.ofList_concat` — one more item at the end is one more insertion.
* `ModuleRecovery.OrderedSet.toList_ofList` — collecting a list removes later repetitions.
* `ModuleRecovery.OrderedSet.ofList_toList` — collecting the items of a collection.
* `ModuleRecovery.OrderedSet.prefix_foldl_insert` — insertions only add at the end.
* `ModuleRecovery.OrderedSet.position?_eq_some_iff` — the position of an item is where it stands.
* `ModuleRecovery.OrderedSet.insertAt_spec` — what an insertion tells.
* `ModuleRecovery.OrderedSet.pairwise_precedes` — the items are listed in their order.
* `ModuleRecovery.OrderedSet.idxOf_ofList_lt` — collecting keeps the order of the items.
* `ModuleRecovery.OrderedSet.filter_foldl_insert` — insertions under a filter.
* `ModuleRecovery.OrderedSet.foldl_insert_filter` — insertions of items that are there already.
* `ModuleRecovery.OrderedSet.toList_foldl_insert_ofList` — one list inserted after another.
-/

universe u

namespace ModuleRecovery.OrderedSet

variable {α : Type u} [DecidableEq α]

/-- One more item at the end of a list is one more insertion. -/
theorem ofList_concat (l : List α) (a : α) : ofList (l ++ [a]) = (ofList l).insert a := by
  rw [ofList, List.foldl_append]
  rfl

@[simp] theorem contains_iff {s : OrderedSet α} {a : α} : s.contains a = true ↔ a ∈ s :=
  decide_eq_true_iff

theorem mem_toList_ofList {l : List α} {a : α} : a ∈ (ofList l).toList ↔ a ∈ l :=
  mem_ofList

/-- **Collecting a list removes the later repetitions of its items.** -/
theorem toList_ofList (l : List α) : (ofList l).toList = l.eraseDups := by
  induction l using List.reverseRecOn with
  | nil => rfl
  | append_singleton l a ih =>
    rw [ofList_concat, toList_insert, List.eraseDups_append, ← ih]
    by_cases ha : a ∈ l
    · rw [if_pos (mem_toList_ofList.2 ha)]
      simp [List.removeAll, ha]
    · rw [if_neg fun h => ha (mem_toList_ofList.1 h)]
      simp [List.removeAll, ha, List.eraseDups_cons]

theorem nodup_eraseDups (l : List α) : l.eraseDups.Nodup := by
  rw [← toList_ofList]
  exact (ofList l).nodup

/-- Collecting a list without repetitions changes nothing. -/
theorem toList_ofList_of_nodup {l : List α} (h : l.Nodup) : (ofList l).toList = l := by
  induction l using List.reverseRecOn with
  | nil => rfl
  | append_singleton l a ih =>
    obtain ⟨hl, -, hdisj⟩ := List.nodup_append.1 h
    have ha : a ∉ l := fun hmem => hdisj a hmem a (List.mem_singleton_self a) rfl
    rw [ofList_concat, toList_insert, if_neg fun h => ha (mem_toList_ofList.1 h), ih hl]

/-- Collecting the items of a collection gives it back. -/
@[simp] theorem ofList_toList (s : OrderedSet α) : ofList s.toList = s :=
  OrderedSet.ext (toList_ofList_of_nodup s.nodup)

/-- A collection has no repetitions to remove. -/
theorem eraseDups_toList (s : OrderedSet α) : s.toList.eraseDups = s.toList := by
  rw [← toList_ofList, ofList_toList]

/-- Insertions only add at the end. -/
theorem prefix_foldl_insert (l : List α) (s : OrderedSet α) :
    s.toList <+: (l.foldl insert s).toList := by
  induction l generalizing s with
  | nil => exact List.prefix_rfl
  | cons a l ih =>
    have hinsert : s.toList <+: (s.insert a).toList := by
      rw [toList_insert]
      split
      · exact List.prefix_rfl
      · exact List.prefix_append _ _
    exact hinsert.trans (ih (s.insert a))

/-! ## Positions -/

/-- The position of an item is where the item stands. -/
theorem position?_eq_some_iff {s : OrderedSet α} {a : α} {i : Nat} :
    s.position? a = some i ↔ s.get? i = some a := by
  rw [position?, get?, List.findIdx?_eq_some_iff_getElem, List.getElem?_eq_some_iff]
  constructor
  · rintro ⟨hi, ha, -⟩
    exact ⟨hi, of_decide_eq_true ha⟩
  · rintro ⟨hi, rfl⟩
    refine ⟨hi, decide_eq_true rfl, fun j hji hj => ?_⟩
    have hij := List.pairwise_iff_getElem.1 s.nodup j i (by omega) hi hji
    exact hij (of_decide_eq_true hj)

/-- Every item has a position. -/
theorem exists_position? {s : OrderedSet α} {a : α} (h : a ∈ s) : ∃ i, s.position? a = some i := by
  obtain ⟨i, hi⟩ := List.mem_iff_getElem?.1 h
  exact ⟨i, position?_eq_some_iff.2 hi⟩

theorem position?_lt_size {s : OrderedSet α} {a : α} {i : Nat} (h : s.position? a = some i) :
    i < s.size :=
  (List.getElem?_eq_some_iff.1 (position?_eq_some_iff.1 h)).1

/-- Different items have different positions. -/
theorem position?_inj {s : OrderedSet α} {a b : α} {i j : Nat} (ha : s.position? a = some i)
    (hb : s.position? b = some j) : i = j ↔ a = b := by
  constructor
  · rintro rfl
    rw [position?_eq_some_iff] at ha hb
    exact Option.some.inj (ha.symm.trans hb)
  · rintro rfl
    exact Option.some.inj (ha.symm.trans hb)

/-- An insertion moves no item. -/
theorem position?_insert {s : OrderedSet α} {a : α} {i : Nat} (h : s.position? a = some i) (b : α) :
    (s.insert b).position? a = some i := by
  rw [position?_eq_some_iff, get?] at h ⊢
  have hlt : i < s.toList.length := (List.getElem?_eq_some_iff.1 h).1
  obtain ⟨t, ht⟩ : s.toList <+: (s.insert b).toList := prefix_foldl_insert [b] s
  rw [← ht, List.getElem?_append_left hlt, h]

/-- After an insertion an item has the position that it had, or is a new one behind the others. -/
theorem position?_of_insert {s : OrderedSet α} {a b : α} {i : Nat}
    (h : (s.insert b).position? a = some i) :
    s.position? a = some i ∨ (a ∉ s ∧ s.size ≤ i) := by
  by_cases ha : a ∈ s
  · obtain ⟨j, hj⟩ := exists_position? ha
    obtain rfl := Option.some.inj ((position?_insert hj b).symm.trans h)
    exact .inl hj
  · refine .inr ⟨ha, Nat.not_lt.1 fun hlt => ha ?_⟩
    obtain ⟨t, ht⟩ : s.toList <+: (s.insert b).toList := prefix_foldl_insert [b] s
    rw [position?_eq_some_iff, get?, ← ht, List.getElem?_append_left hlt] at h
    exact List.mem_of_getElem? h

theorem position?_eq_none_iff {s : OrderedSet α} {a : α} : s.position? a = none ↔ a ∉ s := by
  rw [position?, List.findIdx?_eq_none_iff, mem_def]
  constructor
  · intro h ha
    exact absurd (h a ha) (by simp)
  · rintro h b hb
    exact decide_eq_false fun heq => h (heq ▸ hb)

/-- **An insertion tells whether the item is new, and the position that it has from now on.** -/
theorem insertAt_spec (s : OrderedSet α) (a : α) :
    ∃ i, s.insertAt a = (s.insert a, i, decide (a ∉ s)) ∧
      (s.insert a).position? a = some i := by
  unfold insertAt
  cases hposition : s.position? a with
  | some i =>
    have ha : a ∈ s := List.mem_of_getElem? (position?_eq_some_iff.1 hposition)
    refine ⟨i, ?_, position?_insert hposition a⟩
    rw [insert_of_mem ha, decide_eq_false (not_not.2 ha)]
  | none =>
    have ha : a ∉ s := position?_eq_none_iff.1 hposition
    refine ⟨s.size, ?_, ?_⟩
    · rw [decide_eq_true ha]
    · rw [position?_eq_some_iff, get?, toList_insert, if_neg (fun h => ha (mem_def.2 h)), size,
        List.getElem?_concat_length]

/-- `a` stands before `b`. -/
def Precedes (s : OrderedSet α) (a b : α) : Prop :=
  ∃ i j, s.position? a = some i ∧ s.position? b = some j ∧ i < j

/-- Two items of which one stands before the other are items, and different. -/
theorem Precedes.mem {s : OrderedSet α} {a b : α} (h : s.Precedes a b) :
    a ∈ s ∧ b ∈ s ∧ a ≠ b := by
  obtain ⟨i, j, hi, hj, hlt⟩ := h
  refine ⟨List.mem_of_getElem? (position?_eq_some_iff.1 hi),
    List.mem_of_getElem? (position?_eq_some_iff.1 hj), ?_⟩
  rintro rfl
  exact Nat.ne_of_lt hlt (Option.some.inj (hi.symm.trans hj))

/-- The items are listed in their order. -/
theorem pairwise_precedes (s : OrderedSet α) : s.toList.Pairwise s.Precedes := by
  rw [List.pairwise_iff_getElem]
  intro i j hi hj hij
  exact ⟨i, j, position?_eq_some_iff.2 (List.getElem?_eq_getElem hi),
    position?_eq_some_iff.2 (List.getElem?_eq_getElem hj), hij⟩

/-! ## Order -/

/-- Two items stand in the same order in a list and in the collection of its items. -/
theorem idxOf_ofList_lt {l : List α} {a b : α} (ha : a ∈ l) (hb : b ∈ l) :
    (ofList l).toList.idxOf a < (ofList l).toList.idxOf b ↔ l.idxOf a < l.idxOf b := by
  induction l using List.reverseRecOn with
  | nil => simp at ha
  | append_singleton l c ih =>
    rw [ofList_concat, toList_insert]
    by_cases hc : c ∈ l
    · -- the last item is not new, so both lists are those of `l` as far as `a` and `b` go
      have ha' : a ∈ l := by
        rcases List.mem_append.1 ha with h | h
        · exact h
        · rwa [List.mem_singleton.1 h]
      have hb' : b ∈ l := by
        rcases List.mem_append.1 hb with h | h
        · exact h
        · rwa [List.mem_singleton.1 h]
      rw [if_pos (mem_toList_ofList.2 hc), List.idxOf_append_of_mem ha',
        List.idxOf_append_of_mem hb', ih ha' hb']
    · have hlt : ∀ {k : List α} {x : α}, x ∈ k → k.idxOf x < k.length :=
        fun h => List.idxOf_lt_length_of_mem h
      rw [if_neg fun h => hc (mem_toList_ofList.1 h)]
      by_cases ha' : a ∈ l
      · have ha'' := mem_toList_ofList.2 ha'
        rw [List.idxOf_append_of_mem ha', List.idxOf_append_of_mem ha'']
        by_cases hb' : b ∈ l
        · rw [List.idxOf_append_of_mem hb', List.idxOf_append_of_mem (mem_toList_ofList.2 hb'),
            ih ha' hb']
        · rw [List.idxOf_append_of_notMem hb',
            List.idxOf_append_of_notMem fun h => hb' (mem_toList_ofList.1 h)]
          exact iff_of_true (Nat.lt_add_right _ (hlt ha'')) (Nat.lt_add_right _ (hlt ha'))
      · -- a new item is the greatest of both lists
        obtain rfl : a = c := by simpa [ha'] using ha
        rw [List.idxOf_append_of_notMem ha',
          List.idxOf_append_of_notMem fun h => ha' (mem_toList_ofList.1 h)]
        by_cases hb' : b ∈ l
        · have hb'' := mem_toList_ofList.2 hb'
          rw [List.idxOf_append_of_mem hb', List.idxOf_append_of_mem hb'']
          have h1 := hlt hb'
          have h2 := hlt hb''
          exact iff_of_false (by omega) (by omega)
        · obtain rfl : b = a := by simpa [hb'] using hb
          rw [List.idxOf_append_of_notMem ha',
            List.idxOf_append_of_notMem fun h => ha' (mem_toList_ofList.1 h)]
          simp

/-! ## Filters -/

variable {p : α → Bool} {s t : OrderedSet α}

theorem filter_insert (s : OrderedSet α) (a : α) :
    (s.insert a).toList.filter p =
      if p a = true ∧ a ∉ s then s.toList.filter p ++ [a] else s.toList.filter p := by
  rw [toList_insert]
  simp only [mem_def]
  by_cases ha : a ∈ s.toList <;> by_cases hp : p a = true <;>
    simp [ha, hp, List.filter_append]

/-- Under a filter, inserting a list is inserting what the filter keeps of it. -/
theorem filter_foldl_insert (l : List α) (h : s.toList.filter p = t.toList) :
    (l.foldl insert s).toList.filter p = ((l.filter p).foldl insert t).toList := by
  induction l generalizing s t with
  | nil => exact h
  | cons a l ih =>
    rw [List.foldl_cons]
    by_cases hp : p a = true
    · rw [List.filter_cons_of_pos hp, List.foldl_cons]
      refine ih ?_
      have hmem : a ∈ s ↔ a ∈ t := by
        rw [mem_def, mem_def, ← h, List.mem_filter]
        simp [hp]
      rw [filter_insert, toList_insert, h]
      by_cases ha : a ∈ t
      · rw [if_neg fun hn => hn.2 (hmem.2 ha), if_pos (mem_def.1 ha)]
      · rw [if_pos ⟨hp, fun hs => ha (hmem.1 hs)⟩, if_neg fun ht => ha (mem_def.2 ht)]
    · rw [List.filter_cons_of_neg hp]
      refine ih ?_
      rw [filter_insert, if_neg fun hn => hp hn.1, h]

/-- Items that are there already need not be inserted. -/
theorem foldl_insert_filter {l : List α} (h : ∀ a ∈ l, p a = false → a ∈ s) :
    (l.filter p).foldl insert s = l.foldl insert s := by
  induction l generalizing s with
  | nil => rfl
  | cons a l ih =>
    obtain ⟨ha, hl⟩ := List.forall_mem_cons.1 h
    have hl' : ∀ b ∈ l, p b = false → b ∈ s.insert a :=
      fun b hb hpb => mem_insert.2 (.inl (hl b hb hpb))
    rw [List.foldl_cons, ← ih hl']
    by_cases hp : p a = true
    · rw [List.filter_cons_of_pos hp, List.foldl_cons]
    · rw [List.filter_cons_of_neg hp, insert_of_mem (ha (by simpa using hp))]

/-- Inserting items that are there already changes nothing. -/
theorem foldl_insert_of_subset {l : List α} (h : ∀ a ∈ l, a ∈ s) : l.foldl insert s = s := by
  rw [← foldl_insert_filter (p := fun _ => false) fun a ha _ => h a ha, List.filter_false]
  rfl

/-- Collecting two lists one after the other. -/
theorem ofList_append (l l' : List α) : ofList (l ++ l') = l'.foldl insert (ofList l) := by
  rw [ofList, ofList, List.foldl_append]

/-- Of a list that is inserted after another one only the new items matter. -/
theorem toList_foldl_insert_ofList {k l l' : List α}
    (h : l.filter (· ∉ k) = l'.filter (· ∉ k)) :
    (l.foldl insert (ofList k)).toList = (k ++ l').eraseDups := by
  have hold : ∀ a, decide (a ∉ k) = false → a ∈ ofList k :=
    fun a ha => mem_ofList.2 (by simpa using ha)
  rw [← foldl_insert_filter fun a _ => hold a, h, foldl_insert_filter fun a _ => hold a,
    ← ofList_append, toList_ofList]

end ModuleRecovery.OrderedSet
