import Mathlib.Data.List.Forall2
import Mathlib.Data.List.Nodup
import Mathlib.Data.List.Perm.Basic

set_option relaxedAutoImplicit false
set_option autoImplicit false

/-!
# Facts about lists

Both the clustering and the partition take an item out of a list by its position and put
what it becomes at the end. A list in a document is read item by item, and each reading may fail.

## Main results

* `ModuleRecovery.perm_cons_eraseIdx` — an item taken out, and what is left of the list.
* `ModuleRecovery.mapM_eq_some_self_iff` — when a change that may fail leaves a list as it is.
* `ModuleRecovery.mapM_eq_ok_iff` — when each item of a list is read.
* `ModuleRecovery.findIdx?_eq_findIdx?_iff` — the first items with two properties.
* `ModuleRecovery.filter_eq_toList_find?` — the pairs with a key that occurs at most once.
-/

universe u v w

namespace ModuleRecovery

variable {α : Type u} {β : Type v}

/-- A list is the item at a position together with what is left without it. -/
theorem perm_cons_eraseIdx {l : List α} {i : Nat} {a : α} (h : l[i]? = some a) :
    l.Perm (a :: l.eraseIdx i) := by
  obtain ⟨hi, rfl⟩ := List.getElem?_eq_some_iff.1 h
  exact (List.getElem_cons_eraseIdx_perm hi).symm

/-- A change that may fail leaves a list as it is exactly when it leaves every item as it is. -/
theorem mapM_eq_some_self_iff {f : α → Option α} {l : List α} :
    l.mapM f = some l ↔ ∀ a ∈ l, f a = some a := by
  induction l with
  | nil => simp
  | cons a l ih =>
    simp only [List.mapM_cons, Option.bind_eq_bind, Option.bind_eq_some_iff, Option.pure_def,
      Option.some.injEq, List.forall_mem_cons, ← ih]
    constructor
    · rintro ⟨b, hb, l', hl, heq⟩
      obtain ⟨rfl, rfl⟩ := List.cons.inj heq
      exact ⟨hb, hl⟩
    · rintro ⟨ha, hl⟩
      exact ⟨a, ha, l, hl, rfl⟩

theorem bind_eq_ok_iff {ε : Type w} {γ : Type v} {x : Except ε β} {f : β → Except ε γ} {c : γ} :
    (x >>= f) = .ok c ↔ ∃ b, x = .ok b ∧ f b = .ok c := by
  cases x with
  | error e => exact ⟨nofun, fun ⟨_, hb, _⟩ => nomatch hb⟩
  | ok b =>
    constructor
    · exact fun h => ⟨b, rfl, h⟩
    · rintro ⟨b', hb, h⟩
      obtain rfl := Except.ok.inj hb
      exact h

/-- A list is read exactly if all of its items are, one by one. -/
theorem mapM_eq_ok_iff {ε : Type w} {f : α → Except ε β} {l : List α} {l' : List β} :
    l.mapM f = .ok l' ↔ List.Forall₂ (fun b a => f a = .ok b) l' l := by
  induction l generalizing l' with
  | nil => cases l' <;> simp [pure, Except.pure]
  | cons a l ih =>
    simp only [List.mapM_cons, bind_eq_ok_iff, ih]
    cases l' with
    | nil => simp [pure, Except.pure]
    | cons b l' => simp [pure, Except.pure]

/-- The first item with a property is the first one with a weaker property exactly if the latter has
the property itself. -/
theorem findIdx?_eq_findIdx?_iff {p q : α → Bool} {l : List α}
    (h : ∀ a, q a = true → p a = true) :
    l.findIdx? q = l.findIdx? p ↔ ∀ a, l.find? p = some a → q a = true := by
  induction l with
  | nil => simp
  | cons a l ih =>
    rw [List.findIdx?_cons, List.findIdx?_cons, List.find?_cons]
    by_cases hp : p a = true
    · by_cases hq : q a = true
      · simp [hp, hq]
      · simp [hp, hq]
    · have hq : ¬ q a = true := fun hq => hp (h a hq)
      have hshift : Function.Injective (Option.map (· + 1) : Option Nat → Option Nat) :=
        Option.map_injective fun i j => Nat.succ.inj
      rw [if_neg hq, if_neg hp, hshift.eq_iff, ih]
      simp [hp]

/-- If no key occurs twice, the first pair with a key is the only one. -/
theorem filter_eq_toList_find? [DecidableEq α] {l : List (α × β)} (h : (l.map Prod.fst).Nodup)
    (a : α) : l.filter (·.1 = a) = (l.find? (·.1 = a)).toList := by
  induction l with
  | nil => rfl
  | cons p l ih =>
    rw [List.map_cons, List.nodup_cons] at h
    by_cases hp : p.1 = a
    · have hnone : l.filter (·.1 = a) = [] := by
        rw [List.filter_eq_nil_iff]
        intro q hq ha
        exact h.1 (List.mem_map.2 ⟨q, hq, by rw [hp]; exact of_decide_eq_true ha⟩)
      rw [List.filter_cons_of_pos (by simpa using hp), List.find?_cons_of_pos (by simpa using hp),
        hnone]
      rfl
    · rw [List.filter_cons_of_neg (by simpa using hp), List.find?_cons_of_neg (by simpa using hp),
        ih h.2]

end ModuleRecovery
