import Mathlib.Data.List.Basic
import Mathlib.Data.List.Nodup
import ModuleRecovery.Proofs.Collections.OrderedSet
import ModuleRecovery.Proofs.Number.UnitInterval

set_option relaxedAutoImplicit false
set_option autoImplicit false

/-!
# The similarity table of a list

The table of a list holds, for any two positions, the clamped similarity of the items there,
the earlier item asked first. So it is symmetric, its entries lie between zero and one, and
it says the same about two items as the list before its repetitions were dropped.

## Main definitions

* `ModuleRecovery.pairSimilarity` — the similarity of two items of a list.
* `ModuleRecovery.Represents` — a table holds the similarities of the items.

## Main results

* `ModuleRecovery.SimilarityMatrix.get_ofList` — the table holds the entries.
* `ModuleRecovery.SimilarityMatrix.ofList_congr` — the table depends on clamped similarities
  only.
* `ModuleRecovery.get_ofList_eq_pairSimilarity` — the entries are similarities of items.
* `ModuleRecovery.pairSimilarity_comm`, `ModuleRecovery.inUnit_pairSimilarity` — these are
  symmetric numbers between zero and one.
* `ModuleRecovery.represents_ofList` — the table of the collected items represents them.
-/

universe u

namespace ModuleRecovery

open Number

namespace SimilarityMatrix

variable {n : Nat}

@[simp] theorem row_position (i j : Fin n) : row (position i j) = i := by
  refine Fin.ext ?_
  show (i * n + j : Nat) / n = i
  rw [Nat.mul_comm, Nat.mul_add_div (Nat.pos_of_ne_zero fun h => by
    have := i.isLt
    omega), Nat.div_eq_of_lt j.isLt, Nat.add_zero]

@[simp] theorem column_position (i j : Fin n) : column (position i j) = j := by
  refine Fin.ext ?_
  show (i * n + j : Nat) % n = j
  rw [Nat.mul_add_mod', Nat.mod_eq_of_lt j.isLt]

/-- The flat table holds at each position the entry of its row and column. -/
theorem get_ofList {α : Type u} (items : List α) (f : α → α → Float) (i j : Fin items.length) :
    (ofList items f).get i j = entry items f i j := by
  simp [get, ofList]

/-- The entries are numbers between zero and one. -/
theorem inUnit_get_ofList {α : Type u} (items : List α) (f : α → α → Float)
    (i j : Fin items.length) : InUnit ((ofList items f).get i j) := by
  rw [get_ofList, entry]
  split_ifs
  · exact inUnit_clampUnit _
  · exact inUnit_clampUnit _
  · exact inUnit_zero

/-- Two functions that agree after clamping, on the pairs of a list in list order, make the
same table. -/
theorem ofList_congr {α : Type u} {items : List α} {f g : α → α → Float}
    (hfg : items.Pairwise fun x y => clampUnit (f x y) = clampUnit (g x y)) :
    ofList items f = ofList items g := by
  have hentry : ∀ i j, entry items f i j = entry items g i j := by
    intro i j
    unfold entry
    split_ifs with hij hji
    · exact List.pairwise_iff_get.1 hfg i j hij
    · exact List.pairwise_iff_get.1 hfg j i hji
    · rfl
  simp only [ofList, hentry]

end SimilarityMatrix

variable {α : Type u}

/-- A table holds the similarities of the items of a list, which are symmetric numbers between
zero and one. -/
structure Represents (items : List α) (sims : SimilarityMatrix items.length)
    (s : α → α → Float) : Prop where
  /-- An entry is the similarity of the items at its two positions. -/
  get_eq : ∀ i j, sims.get i j = s (items.get i) (items.get j)
  /-- The similarities are symmetric. -/
  symm : ∀ x y, s x y = s y x
  /-- They are numbers between zero and one. -/
  inUnit : ∀ x y, InUnit (s x y)

theorem Represents.inUnit_get {items : List α} {sims : SimilarityMatrix items.length}
    {s : α → α → Float} (hrep : Represents items sims s) (i j : Fin items.length) :
    InUnit (sims.get i j) :=
  hrep.get_eq i j ▸ hrep.inUnit _ _

variable [DecidableEq α]

/-- The similarity of two items of a list: the clamped value of the function, whose first
argument is the item that occurs first. -/
def pairSimilarity (items : List α) (f : α → α → Float) (x y : α) : Float :=
  if items.idxOf x < items.idxOf y then clampUnit (f x y)
  else if items.idxOf y < items.idxOf x then clampUnit (f y x)
  else 0

theorem pairSimilarity_comm (items : List α) (f : α → α → Float) (x y : α) :
    pairSimilarity items f x y = pairSimilarity items f y x := by
  unfold pairSimilarity
  split_ifs
  · omega
  · rfl
  · rfl
  · rfl

theorem inUnit_pairSimilarity (items : List α) (f : α → α → Float) (x y : α) :
    InUnit (pairSimilarity items f x y) := by
  unfold pairSimilarity
  split_ifs
  · exact inUnit_clampUnit _
  · exact inUnit_clampUnit _
  · exact inUnit_zero

/-- **The table of the collected items** holds the similarities of the items. -/
theorem get_ofList_eq_pairSimilarity (items : List α) (f : α → α → Float)
    (i j : Fin (OrderedSet.ofList items).toList.length) :
    (SimilarityMatrix.ofList (OrderedSet.ofList items).toList f).get i j =
      pairSimilarity items f ((OrderedSet.ofList items).toList.get i)
        ((OrderedSet.ofList items).toList.get j) := by
  have hlt : ∀ i j, i < j ↔ items.idxOf ((OrderedSet.ofList items).toList.get i) <
      items.idxOf ((OrderedSet.ofList items).toList.get j) := by
    intro i j
    rw [← OrderedSet.idxOf_ofList_lt (OrderedSet.mem_toList_ofList.1 (List.get_mem _ i))
      (OrderedSet.mem_toList_ofList.1 (List.get_mem _ j)),
      List.get_idxOf (OrderedSet.ofList items).nodup,
      List.get_idxOf (OrderedSet.ofList items).nodup, Fin.lt_def]
  rw [SimilarityMatrix.get_ofList, SimilarityMatrix.entry, pairSimilarity]
  simp only [hlt]

/-- The table of the collected items represents the similarities of the items. -/
theorem represents_ofList (items : List α) (f : α → α → Float) :
    Represents (OrderedSet.ofList items).toList (.ofList (OrderedSet.ofList items).toList f)
      (pairSimilarity items f) where
  get_eq := get_ofList_eq_pairSimilarity items f
  symm := pairSimilarity_comm items f
  inUnit := inUnit_pairSimilarity items f

theorem represents_eraseDups (items : List α) (f : α → α → Float) :
    Represents items.eraseDups (.ofList items.eraseDups f) (pairSimilarity items f) :=
  OrderedSet.toList_ofList items ▸ represents_ofList items f

end ModuleRecovery
