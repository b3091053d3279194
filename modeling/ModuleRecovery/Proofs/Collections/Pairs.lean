import Mathlib.Data.List.Basic
import Mathlib.Data.List.FinRange
import Mathlib.Data.List.ProdSigma
import ModuleRecovery.Collections.Pairs

set_option relaxedAutoImplicit false
set_option autoImplicit false

/-!
# Facts about unordered pairs

The unordered pairs of a list are the pairs of its items at increasing positions. So what
holds of any two items in list order holds of all pairs, and the other way round.

## Main results

* `ModuleRecovery.mem_unorderedPairs` — a pair of a list has two increasing positions.
* `ModuleRecovery.pairwise_iff_unorderedPairs` — pairwise facts are facts about all pairs.
* `ModuleRecovery.unorderedPairs_eq_flatMap_drop` — the pairs of each item with those behind it.
* `ModuleRecovery.pairwise_unorderedPairs` — no two items make up two pairs of a list without
  repetitions.
* `ModuleRecovery.pairwise_lex_unorderedPairs` — the pairs of an ordered list are in lexical order.
* `ModuleRecovery.mem_unorderedPairs_zipIdx` — pairs of items that carry their positions.
* `ModuleRecovery.unorderedPairs_zipIdx` — these pairs follow the lexical order of positions.
-/

universe u v

namespace ModuleRecovery

variable {α : Type u} {β : Type v}

/-- A pair of a list consists of the items at two increasing positions. -/
theorem mem_unorderedPairs {l : List α} {x y : α} :
    (x, y) ∈ unorderedPairs l ↔ ∃ i j : Nat, i < j ∧ l[i]? = some x ∧ l[j]? = some y := by
  induction l with
  | nil => simp [unorderedPairs]
  | cons a l ih =>
    rw [unorderedPairs, List.mem_append, ih]
    constructor
    · rintro (h | ⟨i, j, hij, hx, hy⟩)
      · obtain ⟨z, hz, heq⟩ := List.mem_map.1 h
        cases heq
        obtain ⟨j, hj⟩ := List.mem_iff_getElem?.1 hz
        exact ⟨0, j + 1, Nat.succ_pos j, rfl, hj⟩
      · exact ⟨i + 1, j + 1, Nat.succ_lt_succ hij, hx, hy⟩
    · rintro ⟨i, j, hij, hx, hy⟩
      obtain ⟨j, rfl⟩ : ∃ k, j = k + 1 := ⟨j - 1, by omega⟩
      cases i with
      | zero =>
        obtain rfl : a = x := by simpa using hx
        exact Or.inl (List.mem_map_of_mem (List.mem_iff_getElem?.2 ⟨j, hy⟩))
      | succ i => exact Or.inr ⟨i, j, Nat.lt_of_succ_lt_succ hij, hx, hy⟩

/-- Both items of a pair are items of the list. -/
theorem mem_of_mem_unorderedPairs {l : List α} {p : α × α} (hp : p ∈ unorderedPairs l) :
    p.1 ∈ l ∧ p.2 ∈ l := by
  obtain ⟨i, j, -, hi, hj⟩ := mem_unorderedPairs.1 hp
  exact ⟨List.mem_of_getElem? hi, List.mem_of_getElem? hj⟩

/-- A relation holds of any two items in list order if it holds of every unordered pair. -/
theorem pairwise_iff_unorderedPairs {R : α → α → Prop} {l : List α} :
    l.Pairwise R ↔ ∀ p ∈ unorderedPairs l, R p.1 p.2 := by
  induction l with
  | nil => simp [unorderedPairs]
  | cons a l ih =>
    rw [List.pairwise_cons, ih, unorderedPairs, List.forall_mem_append, List.forall_mem_map]

/-- The unordered pairs of a list of images. -/
theorem unorderedPairs_map (f : α → β) (l : List α) :
    unorderedPairs (l.map f) = (unorderedPairs l).map (Prod.map f f) := by
  induction l with
  | nil => rfl
  | cons a l ih =>
    rw [List.map_cons, unorderedPairs, unorderedPairs, List.map_append, ih, List.map_map,
      List.map_map]
    rfl

/-- The unordered pairs of a list are those of each item with the items behind it. -/
theorem unorderedPairs_eq_flatMap_drop (l : List α) :
    unorderedPairs l = l.zipIdx.flatMap fun p => (l.drop (p.2 + 1)).map (p.1, ·) := by
  induction l with
  | nil => rfl
  | cons x l ih =>
    rw [unorderedPairs, ih, List.zipIdx_cons, List.flatMap_cons, List.zipIdx_succ, List.flatMap_map]
    rfl

/-- A list with two items has a pair. -/
theorem unorderedPairs_ne_nil {l : List α} (h : 2 ≤ l.length) : unorderedPairs l ≠ [] := by
  match l, h with
  | a :: b :: l, _ => simp [unorderedPairs]

/-- Two different items of a list make up a pair, in one order or the other. -/
theorem mem_unorderedPairs_of_ne {l : List α} {x y : α} (hx : x ∈ l) (hy : y ∈ l) (hxy : x ≠ y) :
    (x, y) ∈ unorderedPairs l ∨ (y, x) ∈ unorderedPairs l := by
  obtain ⟨i, hi⟩ := List.mem_iff_getElem?.1 hx
  obtain ⟨j, hj⟩ := List.mem_iff_getElem?.1 hy
  rcases Nat.lt_trichotomy i j with h | rfl | h
  · exact .inl (mem_unorderedPairs.2 ⟨i, j, h, hi, hj⟩)
  · exact absurd (Option.some.inj (hi.symm.trans hj)) hxy
  · exact .inr (mem_unorderedPairs.2 ⟨j, i, h, hj, hi⟩)

/-- **No two items make up two pairs** of a list without repetitions. -/
theorem pairwise_unorderedPairs {l : List α} (hl : l.Nodup) :
    (unorderedPairs l).Pairwise fun p q => p ≠ q ∧ p ≠ q.swap := by
  induction l with
  | nil => exact .nil
  | cons a l ih =>
    obtain ⟨ha, hl⟩ := List.nodup_cons.1 hl
    rw [unorderedPairs, List.pairwise_append, List.pairwise_map]
    refine ⟨hl.imp_of_mem fun hx hy hxy => ⟨?_, ?_⟩, ih hl, fun p hp q hq => ⟨?_, ?_⟩⟩
    · exact fun h => hxy (Prod.mk.inj h).2
    · exact fun h => ha ((Prod.mk.inj h).1 ▸ hy)
    -- the first item is in no pair of the rest
    · rintro rfl
      obtain ⟨x, -, rfl⟩ := List.mem_map.1 hp
      exact ha (mem_of_mem_unorderedPairs hq).1
    · rintro rfl
      obtain ⟨x, -, heq⟩ := List.mem_map.1 hp
      exact ha ((Prod.mk.inj heq).1 ▸ (mem_of_mem_unorderedPairs hq).2)

/-- **The pairs of an ordered list are in lexical order.** -/
theorem pairwise_lex_unorderedPairs {R : α → α → Prop} {l : List α} (hl : l.Pairwise R) :
    (unorderedPairs l).Pairwise (Prod.Lex R R) := by
  induction l with
  | nil => exact .nil
  | cons a l ih =>
    obtain ⟨ha, hl⟩ := List.pairwise_cons.1 hl
    rw [unorderedPairs, List.pairwise_append, List.pairwise_map]
    refine ⟨hl.imp fun hxy => .right a hxy, ih hl, fun p hp q hq => ?_⟩
    obtain ⟨x, -, rfl⟩ := List.mem_map.1 hp
    exact .left x q.2 (ha q.1 (mem_of_mem_unorderedPairs hq).1)

/-- In a pair of items with positions, the positions increase and tell the items. -/
theorem mem_unorderedPairs_zipIdx {l : List α} {p : (α × Nat) × α × Nat}
    (hp : p ∈ unorderedPairs l.zipIdx) :
    p.1.2 < p.2.2 ∧ l[p.1.2]? = some p.1.1 ∧ l[p.2.2]? = some p.2.1 := by
  obtain ⟨⟨x, i'⟩, y, j'⟩ := p
  obtain ⟨i, j, hij, hx, hy⟩ := mem_unorderedPairs.1 hp
  rw [List.getElem?_zipIdx, Option.map_eq_some_iff] at hx hy
  obtain ⟨x', hx, heq⟩ := hx
  obtain ⟨y', hy, heq'⟩ := hy
  rw [Prod.mk.injEq] at heq heq'
  obtain ⟨rfl, rfl⟩ := heq
  obtain ⟨rfl, rfl⟩ := heq'
  simpa using ⟨hij, hx, hy⟩

/-- **The pairs of an increasing list are its pairs in lexical order** whose first item is the
smaller one.

**Proof sketch.** No item of the rest of the list is smaller than the first one. -/
theorem unorderedPairs_eq_filter_product [LinearOrder α] {l : List α}
    (hl : l.Pairwise (· < ·)) :
    unorderedPairs l = (l.product l).filter fun p => p.1 < p.2 := by
  induction l with
  | nil => rfl
  | cons a l ih =>
    obtain ⟨ha, hl⟩ := List.pairwise_cons.1 hl
    have hfirst : ((a :: l).map (a, ·)).filter (fun p => p.1 < p.2) = l.map (a, ·) := by
      rw [List.map_cons, List.filter_cons_of_neg (by simp), List.filter_eq_self]
      rintro _ hp
      obtain ⟨b, hb, rfl⟩ := List.mem_map.1 hp
      exact decide_eq_true (ha b hb)
    have hrest : (l.product (a :: l)).filter (fun p => p.1 < p.2) =
        (l.product l).filter fun p => p.1 < p.2 := by
      rw [List.product, List.product, List.filter_flatMap, List.filter_flatMap]
      refine List.flatMap_congr fun b hb => ?_
      rw [List.map_cons, List.filter_cons_of_neg (by simpa using (ha b hb).le)]
    show l.map (a, ·) ++ unorderedPairs l =
      (((a :: l).map (a, ·)) ++ l.product (a :: l)).filter _
    rw [ih hl, List.filter_append, hfirst, hrest]

/-- The pairs of the positions below a bound. -/
theorem mem_unorderedPairs_finRange {n : Nat} {i j : Fin n} :
    (i, j) ∈ unorderedPairs (List.finRange n) ↔ i < j := by
  rw [unorderedPairs_eq_filter_product (List.pairwise_lt_finRange n), List.mem_filter,
    List.pair_mem_product]
  simp

/-- The pairs of items with positions, by the pairs of positions in lexical order. -/
theorem unorderedPairs_zipIdx (l : List α) :
    unorderedPairs l.zipIdx =
      (((List.finRange l.length).product (List.finRange l.length)).filter
        fun p => p.1 < p.2).map fun p => ((l.get p.1, p.1.val), (l.get p.2, p.2.val)) := by
  have hzip : l.zipIdx = (List.finRange l.length).map fun i => (l.get i, i.val) := by
    refine List.ext_getElem (by simp) fun i _ _ => ?_
    simp
  rw [← unorderedPairs_eq_filter_product (List.pairwise_lt_finRange _)]
  rw [hzip, unorderedPairs_map]
  rfl

/-- The pairs of a list are the pairs of its items with positions, the positions dropped. -/
theorem unorderedPairs_eq_map_zipIdx (l : List α) :
    unorderedPairs l = (unorderedPairs l.zipIdx).map (Prod.map Prod.fst Prod.fst) := by
  rw [← unorderedPairs_map, List.zipIdx_map_fst]

end ModuleRecovery
