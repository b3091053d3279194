import Mathlib.Data.List.Chain
import ModuleRecovery.Proofs.Clustering.Linkage

set_option relaxedAutoImplicit false
set_option autoImplicit false

/-!
# Chains of items

A chain leads from one item to another over items of the list; it is as strong as the least
similarity of two neighbours. The strength of two items is the greatest strength of a chain
between them, their max-min similarity. It is also the greatest threshold at which the two
items are connected by links that reach the threshold.

## Main definitions

* `ModuleRecovery.IsItemChain` — a chain between two items.
* `ModuleRecovery.weakestLink` — the least similarity along a chain.
* `ModuleRecovery.IsBottleneck` — the max-min similarity of two items.
* `ModuleRecovery.Linked` — connected by links that reach a threshold.
* `ModuleRecovery.IsStrength` — the greatest threshold at which two items are connected.

## Main results

* `ModuleRecovery.Linked.exists_crossing` — a connection out of a set crosses its border.
* `ModuleRecovery.linked_iff_exists_chain` — being connected means having a strong chain.
* `ModuleRecovery.IsStrength.exists_isBottleneck`, `ModuleRecovery.IsStrength.exact_eq` —
  the two notions of strength agree.
-/

universe u

namespace ModuleRecovery

open Number Relation

variable {α : Type u} {items : List α} {s : α → α → Float} {q : ℚ} {x y : α} {zs : List α}

/-- A chain of items of a list from `x` to `y`, no item twice in a row. -/
structure IsItemChain (items : List α) (x y : α) (zs : List α) : Prop where
  /-- The chain starts with the one item. -/
  head : zs.head? = some x
  /-- It ends with the other item. -/
  last : zs.getLast? = some y
  /-- It runs over items of the list. -/
  mem_items : ∀ z ∈ zs, z ∈ items
  /-- Two neighbours differ. -/
  ne : zs.IsChain (· ≠ ·)

/-- The similarities of the neighbours along a chain. -/
def linkSimilarities (s : α → α → Float) : List α → List Float
  | x :: y :: zs => s x y :: linkSimilarities s (y :: zs)
  | _ => []

/-- The least similarity of neighbours along a chain. -/
def weakestLink (s : α → α → Float) (zs : List α) : Float :=
  (linkSimilarities s zs).foldl lesser positiveInfinity

/-- The max-min similarity of two items: some chain has it as its weakest link, and no chain
has a stronger weakest link. -/
structure IsBottleneck (items : List α) (s : α → α → Float) (x y : α) (m : Float) : Prop where
  /-- Some chain is that strong. -/
  attained : ∃ zs, IsItemChain items x y zs ∧ weakestLink s zs = m
  /-- No chain is stronger. -/
  greatest : ∀ zs, IsItemChain items x y zs → weakestLink s zs ≤ m

/-- Two different items of a list whose similarity reaches a threshold. -/
structure Link (items : List α) (s : α → α → Float) (q : ℚ) (x y : α) : Prop where
  /-- The first is an item of the list. -/
  left_mem : x ∈ items
  /-- The second is an item of the list. -/
  right_mem : y ∈ items
  /-- They differ. -/
  ne : x ≠ y
  /-- Their similarity reaches the threshold. -/
  le : q ≤ exact (s x y)

/-- Two items connected by links that reach a threshold. -/
def Linked (items : List α) (s : α → α → Float) (q : ℚ) : α → α → Prop :=
  ReflTransGen (Link items s q)

/-- The greatest threshold at which two items are connected. -/
structure IsStrength (items : List α) (s : α → α → Float) (x y : α) (v : Float) : Prop where
  /-- The threshold is a number between zero and one. -/
  inUnit : InUnit v
  /-- The items are connected at the threshold. -/
  linked : Linked items s (exact v) x y
  /-- They are not connected at any greater threshold. -/
  greatest : ∀ q, Linked items s q x y → q ≤ exact v

/-! ## Connections -/

/-- Links are symmetric, as similarities are. -/
theorem Link.symm (hs : ∀ x y, s x y = s y x) (h : Link items s q x y) : Link items s q y x :=
  ⟨h.right_mem, h.left_mem, h.ne.symm, hs x y ▸ h.le⟩

theorem Linked.symm (hs : ∀ x y, s x y = s y x) (h : Linked items s q x y) :
    Linked items s q y x := by
  induction h with
  | refl => exact .refl
  | tail _ hl ih => exact ih.head (hl.symm hs)

/-- A connection at a threshold is one at any smaller threshold. -/
theorem Linked.mono {p : ℚ} (hpq : p ≤ q) (h : Linked items s q x y) : Linked items s p x y := by
  induction h with
  | refl => exact .refl
  | tail _ hl ih => exact ih.tail ⟨hl.left_mem, hl.right_mem, hl.ne, hpq.trans hl.le⟩

/-- **A connection that leaves a set crosses its border somewhere.** -/
theorem Linked.exists_crossing {S : List α} (h : Linked items s q x y) (hx : x ∈ S)
    (hy : y ∉ S) : ∃ a ∈ S, ∃ b ∉ S, Link items s q a b := by
  induction h with
  | refl => exact absurd hx hy
  | @tail b c _ hbc ih =>
    by_cases hb : b ∈ S
    · exact ⟨b, hb, c, hy, hbc⟩
    · exact ih hb

theorem IsStrength.symm {v : Float} (hs : ∀ x y, s x y = s y x) (h : IsStrength items s x y v) :
    IsStrength items s y x v :=
  ⟨h.inUnit, h.linked.symm hs, fun q hq => h.greatest q (Linked.symm hs hq)⟩

/-! ## Chains -/

/-- A chain of links is a chain of items whose neighbours reach the threshold. -/
theorem isChain_link_iff (hx : x ∈ items) :
    (x :: zs).IsChain (Link items s q) ↔
      (∀ z ∈ zs, z ∈ items) ∧ (x :: zs).IsChain (· ≠ ·) ∧
        ∀ w ∈ linkSimilarities s (x :: zs), q ≤ exact w := by
  induction zs generalizing x with
  | nil => simp [linkSimilarities]
  | cons y zs ih =>
    rw [List.isChain_cons_cons, List.isChain_cons_cons, linkSimilarities, List.forall_mem_cons,
      List.forall_mem_cons]
    constructor
    · rintro ⟨hl, hc⟩
      obtain ⟨hmem, hne, hle⟩ := (ih hl.right_mem).1 hc
      exact ⟨⟨hl.right_mem, hmem⟩, ⟨hl.ne, hne⟩, hl.le, hle⟩
    · rintro ⟨⟨hy, hmem⟩, ⟨hne, hc⟩, hle, hles⟩
      exact ⟨⟨hx, hy, hne, hle⟩, (ih hy).2 ⟨hmem, hc, hles⟩⟩

/-- The similarities along a list are similarities of items. -/
theorem inUnit_linkSimilarities (hs : ∀ x y, InUnit (s x y)) (zs : List α) :
    ∀ w ∈ linkSimilarities s zs, InUnit w := by
  induction zs with
  | nil => simp [linkSimilarities]
  | cons x zs ih =>
    cases zs with
    | nil => simp [linkSimilarities]
    | cons y zs =>
      rw [linkSimilarities, List.forall_mem_cons]
      exact ⟨hs x y, ih⟩

/-- The weakest link of a chain between different items is the least of its similarities. -/
theorem firstGreatest_weakestLink (hs : ∀ x y, InUnit (s x y)) (hxy : x ≠ y)
    (h : IsItemChain items x y zs) :
    FirstGreatest (fun w => -exact w) (linkSimilarities s zs) (weakestLink s zs) := by
  refine firstGreatest_lesser ?_ (inUnit_linkSimilarities hs zs)
  obtain ⟨hhead, hlast, -, -⟩ := h
  match zs with
  | [] => simp at hhead
  | [z] =>
    simp only [List.head?_cons, List.getLast?_singleton, Option.some.injEq] at hhead hlast
    exact absurd (hhead.symm.trans hlast) hxy
  | z :: z' :: zs => simp [linkSimilarities]

theorem inUnit_weakestLink (hs : ∀ x y, InUnit (s x y)) (hxy : x ≠ y)
    (h : IsItemChain items x y zs) : InUnit (weakestLink s zs) :=
  inUnit_linkSimilarities hs zs _ (firstGreatest_weakestLink hs hxy h).mem

/-- **Two items are connected at a threshold if a chain between them reaches it.** -/
theorem linked_iff_exists_chain (hs : ∀ x y, InUnit (s x y)) (hx : x ∈ items) (hxy : x ≠ y) :
    Linked items s q x y ↔ ∃ zs, IsItemChain items x y zs ∧ q ≤ exact (weakestLink s zs) := by
  constructor
  · intro h
    obtain ⟨zs, hchain, hlast⟩ := List.exists_isChain_cons_of_relationReflTransGen h
    obtain ⟨hmem, hne, hle⟩ := (isChain_link_iff hx).1 hchain
    have hzs : IsItemChain items x y (x :: zs) :=
      ⟨rfl, by rw [List.getLast?_eq_some_getLast (List.cons_ne_nil x zs), hlast],
        List.forall_mem_cons.2 ⟨hx, hmem⟩, hne⟩
    exact ⟨x :: zs, hzs, hle _ (firstGreatest_weakestLink hs hxy hzs).mem⟩
  · rintro ⟨zs, hzs, hle⟩
    have hfg := firstGreatest_weakestLink hs hxy hzs
    obtain ⟨hhead, hlast, hmem, hne⟩ := hzs
    match zs, hhead with
    | z :: zs, rfl =>
      have hchain : (z :: zs).IsChain (Link items s q) := by
        refine (isChain_link_iff hx).2 ⟨(List.forall_mem_cons.1 hmem).2, hne, fun w hw => ?_⟩
        exact hle.trans (neg_le_neg_iff.1 (hfg.le hw))
      refine List.relationReflTransGen_of_exists_isChain_cons zs hchain ?_
      exact Option.some_inj.1 ((List.getLast?_eq_some_getLast _).symm.trans hlast)

/-- Chains, and so max-min similarities, depend on a list only through its items. -/
theorem IsItemChain.congr {items' : List α} (hmem : ∀ z, z ∈ items ↔ z ∈ items')
    (h : IsItemChain items x y zs) : IsItemChain items' x y zs :=
  ⟨h.head, h.last, fun z hz => (hmem z).1 (h.mem_items z hz), h.ne⟩

theorem IsBottleneck.congr {items' : List α} {m : Float} (hmem : ∀ z, z ∈ items ↔ z ∈ items')
    (h : IsBottleneck items s x y m) : IsBottleneck items' s x y m := by
  obtain ⟨⟨zs, hzs, heq⟩, hgreatest⟩ := h
  exact ⟨⟨zs, hzs.congr hmem, heq⟩,
    fun zs' hzs' => hgreatest zs' (hzs'.congr fun z => (hmem z).symm)⟩

/-! ## The two notions of strength -/

/-- Items of a strength have a max-min similarity. -/
theorem IsStrength.exists_isBottleneck {v : Float} (hs : ∀ x y, InUnit (s x y)) (hx : x ∈ items)
    (hxy : x ≠ y) (h : IsStrength items s x y v) : ∃ m, IsBottleneck items s x y m := by
  obtain ⟨zs, hzs, hle⟩ := (linked_iff_exists_chain hs hx hxy).1 h.linked
  refine ⟨weakestLink s zs, ⟨zs, hzs, rfl⟩, fun zs' hzs' => ?_⟩
  rw [(inUnit_weakestLink hs hxy hzs').le_iff (inUnit_weakestLink hs hxy hzs)]
  exact (h.greatest _ ((linked_iff_exists_chain hs hx hxy).2 ⟨zs', hzs', le_rfl⟩)).trans hle

/-- **The max-min similarity of two items is their strength.** -/
theorem IsStrength.exact_eq {v m : Float} (hs : ∀ x y, InUnit (s x y)) (hx : x ∈ items)
    (hxy : x ≠ y) (h : IsStrength items s x y v) (hm : IsBottleneck items s x y m) :
    InUnit m ∧ exact m = exact v := by
  obtain ⟨⟨zs, hzs, rfl⟩, hgreatest⟩ := hm
  have hunit := inUnit_weakestLink hs hxy hzs
  refine ⟨hunit, le_antisymm ?_ ?_⟩
  · exact h.greatest _ ((linked_iff_exists_chain hs hx hxy).2 ⟨zs, hzs, le_rfl⟩)
  · obtain ⟨zs', hzs', hle⟩ := (linked_iff_exists_chain hs hx hxy).1 h.linked
    exact hle.trans (((inUnit_weakestLink hs hxy hzs').le_iff hunit).1 (hgreatest zs' hzs'))

end ModuleRecovery
