import Mathlib.Logic.Function.Basic
import ModuleRecovery.Proofs.Collections.OrderedSet

set_option relaxedAutoImplicit false
set_option autoImplicit false

/-!
# Histories of insertions

A set that grew from nothing by insertions is told by its history: its items are the values that
were inserted, in order of first insertion. Each insertion tells the position that its value has in
the end, because no later insertion moves it, and calls the value new exactly the first time.

The same set can be kept in two tables, the items and the position of each item. An insertion looks
into the second table only, and the two stay inverse to each other.

## Main definitions

* `ModuleRecovery.insertAll` — a run of insertions, with what each of them tells.
* `ModuleRecovery.insertionAnswers` — what the insertions of a history have to tell.
* `ModuleRecovery.PositionTable` — an ordered set in two tables.
* `ModuleRecovery.PositionTable.IsTableOf` — the tables are those of a set.

## Main results

* `ModuleRecovery.OrderedSet.position?_insert_of_notMem` — a new item stands behind the others.
* `ModuleRecovery.OrderedSet.pairwise_idxOf_ofList` — the items are in order of first insertion.
* `ModuleRecovery.OrderedSet.insertAll_insertAt` — what the insertions of a history tell.
* `ModuleRecovery.PositionTable.IsTableOf.insertAt` — an insertion keeps the tables those of the
  set.
* `ModuleRecovery.ofList_insertions` — an ordered set is told by its insertions.
-/

universe u v

namespace ModuleRecovery

variable {α : Type u} {σ : Type v}

/-- Insert the values of a list one after the other, and list what the insertions tell. -/
def insertAll (insertAt : σ → α → σ × Nat × Bool) (start : σ) (l : List α) :
    σ × List (Nat × Bool) :=
  l.foldl (fun run a => ((insertAt run.1 a).1, run.2 ++ [(insertAt run.1 a).2])) (start, [])

theorem insertAll_concat (insertAt : σ → α → σ × Nat × Bool) (start : σ) (l : List α) (a : α) :
    insertAll insertAt start (l ++ [a]) =
      ((insertAt (insertAll insertAt start l).1 a).1,
        (insertAll insertAt start l).2 ++ [(insertAt (insertAll insertAt start l).1 a).2]) :=
  List.foldl_concat _ _ _ _

variable [DecidableEq α]

/-- What the insertions of a history have to tell: the place of the value among the different values
of the whole history, and whether it was not inserted before. -/
def insertionAnswers (l : List α) : List (Nat × Bool) :=
  l.zipIdx.map fun p => (l.eraseDups.idxOf p.1, decide (p.1 ∉ l.take p.2))

namespace OrderedSet

variable {s : OrderedSet α} {l : List α} {a b : α} {i : Nat}

/-- A new item stands behind the others, which keep their positions. -/
theorem position?_insert_of_notMem (ha : a ∉ s) (b : α) :
    (s.insert a).position? b = if b = a then some s.size else s.position? b := by
  rw [position?, toList_insert, if_neg (mt mem_def.2 ha), List.findIdx?_append]
  by_cases hb : b = a
  · subst hb
    have hnone : s.toList.findIdx? (· = b) = none := position?_eq_none_iff.2 ha
    simp [hnone, size]
  · simp [hb, Ne.symm hb, position?]

theorem contains_eq_isSome_position? (s : OrderedSet α) (a : α) :
    s.contains a = (s.position? a).isSome := by
  rw [Bool.eq_iff_iff, contains_iff, Option.isSome_iff_ne_none, Ne, position?_eq_none_iff, not_not]

/-- An insertion tells where its item stands from now on, and whether the item is new. -/
theorem insertAt_of_position? (h : (s.insert a).position? a = some i) :
    s.insertAt a = (s.insert a, i, decide (a ∉ s)) := by
  obtain ⟨j, hinsert, hj⟩ := s.insertAt_spec a
  obtain rfl := Option.some.inj (h.symm.trans hj)
  exact hinsert

/-- **The items are in order of first insertion.** -/
theorem pairwise_idxOf_ofList (l : List α) :
    (ofList l).toList.Pairwise fun a b => l.idxOf a < l.idxOf b := by
  have hnd := (ofList l).nodup
  rw [List.pairwise_iff_getElem]
  intro i j hi hj hij
  have hlt : (ofList l).toList.idxOf (ofList l).toList[i] <
      (ofList l).toList.idxOf (ofList l).toList[j] := by
    rwa [hnd.idxOf_getElem i hi, hnd.idxOf_getElem j hj]
  exact (idxOf_ofList_lt (mem_toList_ofList.1 (List.getElem_mem hi))
    (mem_toList_ofList.1 (List.getElem_mem hj))).1 hlt

/-- Later insertions move no item. -/
theorem position?_foldl_insert (h : s.position? a = some i) (l : List α) :
    (l.foldl insert s).position? a = some i := by
  induction l generalizing s with
  | nil => exact h
  | cons b l ih => exact ih (position?_insert h b)

/-- The position of a value that was inserted is its place among the different values. -/
theorem position?_ofList (h : a ∈ l) : (ofList l).position? a = some (l.eraseDups.idxOf a) := by
  rw [position?_eq_some_iff, get?, toList_ofList]
  exact List.getElem?_idxOf (List.mem_eraseDups.2 h)

/-! ## What the insertions tell -/

/-- Inserting a known item changes nothing and tells its position. -/
theorem insertAt_of_mem (ha : a ∈ s) :
    ∃ i, s.position? a = some i ∧ s.insertAt a = (s, i, false) := by
  obtain ⟨i, hi⟩ := exists_position? ha
  refine ⟨i, hi, ?_⟩
  rw [insertAt_of_position? (position?_insert hi a), insert_of_mem ha,
    decide_eq_false (not_not.2 ha)]

/-- Inserting a new item puts it behind the others and tells this place. -/
theorem insertAt_of_notMem (ha : a ∉ s) :
    s.insertAt a = (s.insert a, s.size, true) ∧ (s.insert a).position? a = some s.size := by
  have hposition : (s.insert a).position? a = some s.size := by
    rw [position?_insert_of_notMem ha, if_pos rfl]
  rw [insertAt_of_position? hposition, decide_eq_true ha]
  exact ⟨rfl, hposition⟩

/-- What an insertion tells, it tells for the whole history: the values that are inserted later
stand behind its own. -/
theorem insertionAnswers_concat (l : List α) (a : α) :
    insertionAnswers (l ++ [a]) =
      insertionAnswers l ++ [((l ++ [a]).eraseDups.idxOf a, decide (a ∉ l))] := by
  have hbefore : ∀ p ∈ l.zipIdx, ((l ++ [a]).eraseDups.idxOf p.1,
      decide (p.1 ∉ (l ++ [a]).take p.2)) = (l.eraseDups.idxOf p.1, decide (p.1 ∉ l.take p.2)) := by
    intro p hp
    have hmem : p.1 ∈ l := List.fst_mem_of_mem_zipIdx hp
    have hlt : p.2 < l.length := List.snd_lt_of_mem_zipIdx hp
    have hidx : (l ++ [a]).eraseDups.idxOf p.1 = l.eraseDups.idxOf p.1 := by
      have hlater := position?_insert (position?_ofList hmem) a
      rw [← ofList_concat, position?_ofList (List.mem_append_left _ hmem)] at hlater
      exact Option.some.inj hlater
    rw [hidx, List.take_append_of_le_length (Nat.le_of_lt hlt)]
  rw [insertionAnswers, List.zipIdx_append, List.map_append, List.map_congr_left hbefore]
  simp [insertionAnswers]

/-- **What the insertions of a history tell.** -/
theorem insertAll_insertAt (l : List α) :
    insertAll insertAt ∅ l = (ofList l, insertionAnswers l) := by
  induction l using List.reverseRecOn with
  | nil => rfl
  | append_singleton l a ih =>
    have hposition : ((ofList l).insert a).position? a = some ((l ++ [a]).eraseDups.idxOf a) := by
      rw [← ofList_concat]
      exact position?_ofList (List.mem_append_right _ (List.mem_singleton_self a))
    rw [insertAll_concat, ih, insertAt_of_position? hposition, insertionAnswers_concat,
      ofList_concat]
    simp only [mem_ofList]

end OrderedSet

/-! ## Items and positions in two tables -/

/-- An ordered set in two tables: its items, and the position of each item. -/
structure PositionTable (α : Type u) where
  /-- The items, oldest first. -/
  items : List α := []
  /-- The positions of the items. -/
  positions : α → Option Nat := fun _ => none

namespace PositionTable

/-- Add `a` behind the items and note its position, unless one is noted already. The position is
told, and whether `a` is new. -/
def insertAt (t : PositionTable α) (a : α) : PositionTable α × Nat × Bool :=
  match t.positions a with
  | some i => (t, i, false)
  | none =>
    ({ items := t.items ++ [a]
       positions := Function.update t.positions a (some t.items.length) }, t.items.length, true)

/-- The tables that collect the values of a list. -/
def ofList (l : List α) : PositionTable α :=
  l.foldl (fun t a => (t.insertAt a).1) {}

/-- The tables are those of a set. -/
structure IsTableOf (t : PositionTable α) (s : OrderedSet α) : Prop where
  /-- The items are the same. -/
  items_eq : t.items = s.toList
  /-- Each item has its position, and no other value has one. -/
  positions_eq : ∀ a, t.positions a = s.position? a

variable {t : PositionTable α} {s : OrderedSet α}

/-- **An insertion keeps the tables those of the set**, and tells the same. -/
theorem IsTableOf.insertAt (h : t.IsTableOf s) (a : α) :
    (t.insertAt a).1.IsTableOf (s.insert a) ∧ (t.insertAt a).2 = (s.insertAt a).2 := by
  unfold PositionTable.insertAt OrderedSet.insertAt
  rw [h.positions_eq a]
  cases hposition : s.position? a with
  | some i =>
    have ha : a ∈ s := List.mem_of_getElem? (OrderedSet.position?_eq_some_iff.1 hposition)
    rw [OrderedSet.insert_of_mem ha]
    exact ⟨h, rfl⟩
  | none =>
    have ha : a ∉ s := OrderedSet.position?_eq_none_iff.1 hposition
    have hsize : t.items.length = s.size := congrArg List.length h.items_eq
    refine ⟨⟨?_, fun b => ?_⟩, by rw [hsize]⟩
    · rw [OrderedSet.toList_insert, if_neg (mt OrderedSet.mem_def.2 ha), h.items_eq]
    · rw [OrderedSet.position?_insert_of_notMem ha]
      show Function.update t.positions a _ b = _
      rw [Function.update_apply, hsize, h.positions_eq b]

/-- **The tables that a history fills are those of the set that it builds**, and the insertions tell
the same. -/
theorem isTableOf_insertAll (l : List α) :
    insertAll PositionTable.insertAt {} l = (ofList l, insertionAnswers l) ∧
      (ofList l).IsTableOf (.ofList l) := by
  induction l using List.reverseRecOn with
  | nil => exact ⟨rfl, rfl, fun a => rfl⟩
  | append_singleton l a ih =>
    obtain ⟨hrun, htable⟩ := ih
    obtain ⟨hnext, htold⟩ := htable.insertAt a
    have hset := OrderedSet.insertAll_insertAt (l ++ [a])
    rw [insertAll_concat, OrderedSet.insertAll_insertAt, Prod.mk.injEq] at hset
    have hlist : ofList (l ++ [a]) = ((ofList l).insertAt a).1 := List.foldl_concat _ _ _ _
    refine ⟨?_, ?_⟩
    · rw [insertAll_concat, hrun, htold, hset.2, hlist]
    · rwa [OrderedSet.ofList_concat, hlist]

end PositionTable

/-! ## The history of a set -/

/-- **An ordered set is told by its insertions.** If the values of a list are inserted one after the
other into the empty set, each insertion tells the position that its value has from then on, and
calls the value new the first time only; the same is told if items and positions are kept in two
tables. The items of the set are the different values, in order of first insertion. The position of
a value is the place where it stands, and exactly the inserted values have one and are contained. At
any moment, inserting a value that is there already changes nothing and tells the position that it
has, and inserting another one puts it behind all others. No later insertion moves an item. The two
tables hold the same items and positions, and stay inverse to each other.

**Proof sketch.** One insertion either leaves the set as it is or adds a value at the end, so it
keeps all positions. The position that an insertion tells is therefore that in the whole history. In
the two tables a value has a position exactly if it is an item, so both take the same case. -/
theorem ofList_insertions (l : List α) :
    insertAll OrderedSet.insertAt ∅ l = (.ofList l, insertionAnswers l) ∧
    insertAll PositionTable.insertAt {} l = (.ofList l, insertionAnswers l) ∧
    let s := OrderedSet.ofList l
    let t := PositionTable.ofList l
    (s.toList = l.eraseDups ∧ (∀ a, a ∈ s.toList ↔ a ∈ l) ∧
      s.toList.Pairwise fun a b => l.idxOf a < l.idxOf b) ∧
    (∀ a i, s.position? a = some i ↔ s.get? i = some a) ∧
    (∀ a, s.contains a = (s.position? a).isSome ∧ (s.contains a = true ↔ a ∈ l)) ∧
    (∀ a ∈ l, ∃ i, s.position? a = some i ∧ s.insertAt a = (s, i, false) ∧ s.insert a = s) ∧
    (∀ a, a ∉ l → s.insertAt a = (s.insert a, s.size, true) ∧
      (s.insert a).toList = s.toList ++ [a] ∧ (s.insert a).position? a = some s.size) ∧
    (∀ (l' : List α) a i, s.position? a = some i →
      (l'.foldl OrderedSet.insert s).position? a = some i) ∧
    (t.items = s.toList ∧ (∀ a, t.positions a = s.position? a) ∧
      ∀ a i, t.positions a = some i ↔ t.items[i]? = some a) := by
  obtain ⟨hrun, htable⟩ := PositionTable.isTableOf_insertAll l
  refine ⟨OrderedSet.insertAll_insertAt l, hrun, ?_⟩
  intro s t
  have hmem : ∀ a, a ∈ s ↔ a ∈ l := fun a => OrderedSet.mem_ofList
  refine ⟨⟨OrderedSet.toList_ofList l, hmem, OrderedSet.pairwise_idxOf_ofList l⟩,
    fun a i => OrderedSet.position?_eq_some_iff, fun a => ⟨s.contains_eq_isSome_position? a,
      OrderedSet.contains_iff.trans (hmem a)⟩, fun a ha => ?_, fun a ha => ?_,
    fun l' a i h => OrderedSet.position?_foldl_insert h l', htable.items_eq, htable.positions_eq,
    fun a i => ?_⟩
  · obtain ⟨i, hi, hinsert⟩ := OrderedSet.insertAt_of_mem ((hmem a).2 ha)
    exact ⟨i, hi, hinsert, OrderedSet.insert_of_mem ((hmem a).2 ha)⟩
  · have hnew : a ∉ s := mt (hmem a).1 ha
    obtain ⟨hinsert, hposition⟩ := OrderedSet.insertAt_of_notMem hnew
    exact ⟨hinsert, by rw [OrderedSet.toList_insert, if_neg (mt OrderedSet.mem_def.2 hnew)],
      hposition⟩
  · rw [htable.positions_eq, htable.items_eq]
    exact OrderedSet.position?_eq_some_iff

-- a value inserted again, and a new one
example : (OrderedSet.ofList [5, 2, 5]).insertAt 2 = (.ofList [5, 2], 1, false) ∧
    (OrderedSet.ofList [5, 2, 5]).insertAt 7 = (.ofList [5, 2, 7], 2, true) :=
  ⟨rfl, rfl⟩

end ModuleRecovery
