import Mathlib.Order.Lattice
import Mathlib.Tactic.Tauto

set_option relaxedAutoImplicit false
set_option autoImplicit false

/-!
# The first greatest item of a list

A pass over a list that keeps an item until a greater one comes along ends with the first of
the greatest items. The greatest and the least similarity of two clusters are found in this
way, and so are the two clusters to merge and the module to split.

## Main definitions

* `ModuleRecovery.FirstGreatest` — the first item of a list whose key no other item exceeds.

## Main results

* `ModuleRecovery.firstGreatest_foldl` — a pass that keeps the greater item finds it.
* `ModuleRecovery.greatest_foldl` — a pass that keeps either of two equal items finds one of them.
* `ModuleRecovery.FirstGreatest.find?_eq` — a search for an item that no other exceeds finds it.
* `ModuleRecovery.FirstGreatest.of_lt_iff`, `ModuleRecovery.FirstGreatest.unique` — it is one
  item, and depends on the order of the keys only.
-/

universe u v v' w

namespace ModuleRecovery

variable {β : Type u} {γ : Type w} {κ : Type v} {κ' : Type v'} [LinearOrder κ] [LinearOrder κ']
  {key : β → κ} {l : List β} {a b c : β}

/-- The first item with the greatest key: earlier items have smaller keys, and later items
have keys that are no greater. -/
def FirstGreatest (key : β → κ) (l : List β) (b : β) : Prop :=
  ∃ before after, l = before ++ b :: after ∧
    (∀ x ∈ before, key x < key b) ∧ ∀ x ∈ after, key x ≤ key b

namespace FirstGreatest

theorem mem (h : FirstGreatest key l b) : b ∈ l := by
  obtain ⟨before, after, rfl, -, -⟩ := h
  simp

theorem le (h : FirstGreatest key l b) (ha : a ∈ l) : key a ≤ key b := by
  obtain ⟨before, after, rfl, hb, hf⟩ := h
  rcases List.mem_append.1 ha with ha | ha
  · exact (hb a ha).le
  · rcases List.mem_cons.1 ha with rfl | ha
    · exact le_rfl
    · exact hf a ha

/-- A smaller item in front changes nothing. -/
theorem cons (h : FirstGreatest key l b) (ha : key a < key b) :
    FirstGreatest key (a :: l) b := by
  obtain ⟨before, after, rfl, hb, hf⟩ := h
  exact ⟨a :: before, after, rfl, List.forall_mem_cons.2 ⟨ha, hb⟩, hf⟩

/-- An item that is no greater than the one before it can be left out. -/
theorem insertSecond (h : FirstGreatest key (a :: l) b) (hc : key c ≤ key a) :
    FirstGreatest key (a :: c :: l) b := by
  obtain ⟨before, after, heq, hb, hf⟩ := h
  cases before with
  | nil =>
    obtain ⟨rfl, rfl⟩ := List.cons_eq_cons.1 heq
    exact ⟨[], c :: l, rfl, by simp, List.forall_mem_cons.2 ⟨hc, hf⟩⟩
  | cons a' before =>
    obtain ⟨rfl, rfl⟩ := List.cons_eq_cons.1 heq
    have ha : key a < key b := hb a List.mem_cons_self
    refine ⟨a :: c :: before, after, rfl, ?_, hf⟩
    exact List.forall_mem_cons.2
      ⟨ha, List.forall_mem_cons.2 ⟨hc.trans_lt ha, fun x hx => hb x (List.mem_cons_of_mem a hx)⟩⟩

/-- The first greatest of the images is the image of the first greatest item. -/
theorem exists_of_map {g : γ → β} {l : List γ} (h : FirstGreatest key (l.map g) b) :
    ∃ c, g c = b ∧ FirstGreatest (fun x => key (g x)) l c := by
  obtain ⟨before, after, heq, hb, hf⟩ := h
  obtain ⟨before, rest, rfl, rfl, hrest⟩ := List.map_eq_append_iff.1 heq
  obtain ⟨c, after, rfl, rfl, rfl⟩ := List.map_eq_cons_iff.1 hrest
  exact ⟨c, rfl, before, after, rfl, fun x hx => hb _ (List.mem_map_of_mem hx),
    fun x hx => hf _ (List.mem_map_of_mem hx)⟩

theorem map (key : β → κ) (g : γ → β) {l : List γ} {c : γ}
    (h : FirstGreatest (fun x => key (g x)) l c) : FirstGreatest key (l.map g) (g c) := by
  obtain ⟨before, after, rfl, hb, hf⟩ := h
  exact ⟨before.map g, after.map g, by simp, List.forall_mem_map.2 hb, List.forall_mem_map.2 hf⟩

/-- Only the keys of the items in the list matter. -/
theorem congr {key' : β → κ} (h : FirstGreatest key l b) (hkey : ∀ x ∈ l, key x = key' x) :
    FirstGreatest key' l b := by
  have hbkey := hkey b h.mem
  obtain ⟨before, after, rfl, hb, hf⟩ := h
  refine ⟨before, after, rfl, fun x hx => ?_, fun x hx => ?_⟩
  · rw [← hkey x (by simp [hx]), ← hbkey]
    exact hb x hx
  · rw [← hkey x (by simp [hx]), ← hbkey]
    exact hf x hx

/-- Only the order of the keys matters: keys of another kind that are ordered alike have the
same first greatest item. -/
theorem of_lt_iff {key' : β → κ'} (h : FirstGreatest key l b)
    (hkey : ∀ x ∈ l, ∀ y ∈ l, key x < key y ↔ key' x < key' y) : FirstGreatest key' l b := by
  have hmem := h.mem
  obtain ⟨before, after, rfl, hb, hf⟩ := h
  refine ⟨before, after, rfl, ?_, ?_⟩
  · intro x hx
    exact (hkey x (List.mem_append_left _ hx) b hmem).1 (hb x hx)
  · intro x hx
    have hxl : x ∈ before ++ b :: after := List.mem_append_right _ (List.mem_cons_of_mem b hx)
    exact not_lt.1 fun hlt => (hf x hx).not_gt ((hkey b hmem x hxl).2 hlt)

/-- **A search for an item that no other item exceeds** finds the first greatest one. -/
theorem find?_eq (h : FirstGreatest key l b) {p : β → Bool}
    (hp : ∀ x ∈ l, p x = true ↔ ∀ y ∈ l, key y ≤ key x) : l.find? p = some b := by
  have hmem := h.mem
  have hle : ∀ y ∈ l, key y ≤ key b := fun y hy => h.le hy
  obtain ⟨before, after, heq, hb, -⟩ := h
  refine List.find?_eq_some_iff_append.2 ⟨(hp b hmem).2 hle, before, after, heq, fun x hx => ?_⟩
  have hxl : x ∈ l := by
    rw [heq]
    exact List.mem_append_left _ hx
  rw [Bool.not_eq_true', ← Bool.not_eq_true, hp x hxl]
  exact fun hall => (hb x hx).not_ge (hall b hmem)

/-- A list has at most one first greatest item: the one that the search finds. -/
theorem unique (hb : FirstGreatest key l b) (hc : FirstGreatest key l c) : b = c := by
  classical
  have hp : ∀ x ∈ l, decide (∀ y ∈ l, key y ≤ key x) = true ↔ ∀ y ∈ l, key y ≤ key x :=
    fun x _ => decide_eq_true_iff
  exact Option.some.inj ((hb.find?_eq hp).symm.trans (hc.find?_eq hp))

end FirstGreatest

/-- **A pass that keeps the greater of two items, and of equal ones the earlier, ends with
the first greatest item.** -/
theorem firstGreatest_foldl {pick : β → β → β} (a : β) (l : List β)
    (hpick : ∀ x ∈ a :: l, ∀ y ∈ a :: l, pick x y = if key x < key y then y else x) :
    FirstGreatest key (a :: l) (l.foldl pick a) := by
  induction l generalizing a with
  | nil => exact ⟨[], [], rfl, by simp, by simp⟩
  | cons c l ih =>
    rw [List.foldl_cons, hpick a (by simp) c (by simp)]
    have hsub : ∀ z, z = a ∨ z = c → z :: l ⊆ a :: c :: l := by
      rintro z (rfl | rfl) x hx <;> simp at hx ⊢ <;> tauto
    split
    next h =>
      have hc := ih c fun x hx y hy => hpick x (hsub c (.inr rfl) hx) y (hsub c (.inr rfl) hy)
      exact hc.cons (h.trans_le (hc.le List.mem_cons_self))
    next h =>
      have ha := ih a fun x hx y hy => hpick x (hsub a (.inl rfl) hx) y (hsub a (.inl rfl) hy)
      exact ha.insertSecond (not_lt.1 h)

/-- A pass that keeps one of two items, and never the smaller one, ends with a greatest item. -/
theorem greatest_foldl {pick : β → β → β} (a : β) (l : List β)
    (hpick : ∀ x ∈ a :: l, ∀ y ∈ a :: l,
      (pick x y = x ∧ key y ≤ key x) ∨ (pick x y = y ∧ key x ≤ key y)) :
    l.foldl pick a ∈ a :: l ∧ ∀ x ∈ a :: l, key x ≤ key (l.foldl pick a) := by
  induction l generalizing a with
  | nil => simp
  | cons c l ih =>
    rw [List.foldl_cons]
    have hsub : ∀ z, z = a ∨ z = c → z :: l ⊆ a :: c :: l := by
      rintro z (rfl | rfl) x hx <;> simp at hx ⊢ <;> tauto
    have hrec : ∀ z, z = a ∨ z = c → l.foldl pick z ∈ z :: l ∧
        ∀ x ∈ z :: l, key x ≤ key (l.foldl pick z) := fun z hz =>
      ih z fun x hx y hy => hpick x (hsub z hz hx) y (hsub z hz hy)
    rcases hpick a (by simp) c (by simp) with ⟨heq, hle⟩ | ⟨heq, hle⟩
    · obtain ⟨hmem, hmax⟩ := hrec a (.inl rfl)
      rw [heq]
      refine ⟨hsub a (.inl rfl) hmem, List.forall_mem_cons.2 ⟨hmax a (by simp), ?_⟩⟩
      exact List.forall_mem_cons.2
        ⟨hle.trans (hmax a (by simp)), fun x hx => hmax x (List.mem_cons_of_mem a hx)⟩
    · obtain ⟨hmem, hmax⟩ := hrec c (.inr rfl)
      rw [heq]
      exact ⟨hsub c (.inr rfl) hmem,
        List.forall_mem_cons.2 ⟨hle.trans (hmax c (by simp)), hmax⟩⟩

end ModuleRecovery
