set_option relaxedAutoImplicit false
set_option autoImplicit false

/-!
# Cutting a text at a separator

A label such as `shop.Cart.total(int)` is taken apart at its first parenthesis and at its
last dot. Both cuts leave the separator out and fail when it does not occur.

## Main definitions

* `ModuleRecovery.cutFirst` — the texts before and after the first separator.
* `ModuleRecovery.cutLast` — the texts before and after the last separator.
* `ModuleRecovery.startsWith` — whether one text begins with another.

## Main results

* `ModuleRecovery.cutFirst_eq_some`, `ModuleRecovery.cutLast_eq_some` — what a cut returns.
-/

namespace ModuleRecovery

/-- The texts before and after the first occurrence of `sep`. -/
def cutFirst (sep : Char) : List Char → Option (List Char × List Char)
  | [] => none
  | c :: s => if c = sep then some ([], s) else (cutFirst sep s).map fun p => (c :: p.1, p.2)

/-- The texts before and after the last occurrence of `sep`. -/
def cutLast (sep : Char) : List Char → Option (List Char × List Char)
  | [] => none
  | c :: s =>
    match cutLast sep s with
    | some (before, after) => some (c :: before, after)
    | none => if c = sep then some ([], s) else none

/-- Whether the text `s` begins with the text `mark`. -/
def startsWith (mark s : String) : Bool :=
  mark.toList.isPrefixOf s.toList

/-- A text can be cut exactly when the separator occurs in it. -/
theorem cutFirst_eq_none {sep : Char} {s : List Char} : cutFirst sep s = none ↔ sep ∉ s := by
  induction s with
  | nil => simp [cutFirst]
  | cons c s ih =>
    by_cases h : c = sep
    · simp [cutFirst, h]
    · simp [cutFirst, h, ih, Ne.symm h]

/-- The first cut is the one whose left part is free of the separator. -/
theorem cutFirst_eq_some {sep : Char} {s before after : List Char} :
    cutFirst sep s = some (before, after) ↔ s = before ++ sep :: after ∧ sep ∉ before := by
  induction s generalizing before with
  | nil => simp [cutFirst]
  | cons c s ih =>
    by_cases h : c = sep
    · subst h
      cases before with
      | nil => simp [cutFirst]
      | cons d before => simp +contextual [cutFirst]
    · cases before with
      | nil => simp [cutFirst, h]
      | cons d before =>
        simp only [cutFirst, h, if_false, Option.map_eq_some_iff, Prod.exists, Prod.mk.injEq,
          List.cons.injEq, List.cons_append, List.mem_cons, not_or]
        constructor
        · rintro ⟨b, a, hs, ⟨rfl, rfl⟩, rfl⟩
          exact ⟨⟨rfl, (ih.1 hs).1⟩, Ne.symm h, (ih.1 hs).2⟩
        · rintro ⟨⟨rfl, hs⟩, -, hb⟩
          exact ⟨before, after, ih.2 ⟨hs, hb⟩, ⟨rfl, rfl⟩, rfl⟩

/-- A text can be cut exactly when the separator occurs in it. -/
theorem cutLast_eq_none {sep : Char} {s : List Char} : cutLast sep s = none ↔ sep ∉ s := by
  induction s with
  | nil => simp [cutLast]
  | cons c s ih =>
    cases hs : cutLast sep s with
    | some p => simp [cutLast, hs, ← ih]
    | none =>
      rw [hs] at ih
      by_cases h : c = sep
      · simp [cutLast, hs, h]
      · simp [cutLast, hs, h, Ne.symm h, ih.1 rfl]

/-- The last cut is the one whose right part is free of the separator. -/
theorem cutLast_eq_some {sep : Char} {s before after : List Char} :
    cutLast sep s = some (before, after) ↔ s = before ++ sep :: after ∧ sep ∉ after := by
  induction s generalizing before after with
  | nil => simp [cutLast]
  | cons c s ih =>
    cases hs : cutLast sep s with
    | some p =>
      obtain ⟨b, a⟩ := p
      have hb := ih.1 hs
      simp only [cutLast, hs, Option.some.injEq, Prod.mk.injEq]
      cases before with
      | nil =>
        simp only [reduceCtorEq, false_and, List.nil_append, List.cons.injEq, false_iff, not_and,
          Classical.not_not, and_imp]
        rintro - rfl
        simp [hb.1]
      | cons d before =>
        simp only [List.cons.injEq, List.cons_append]
        constructor
        · rintro ⟨⟨rfl, rfl⟩, rfl⟩
          exact ⟨⟨rfl, hb.1⟩, hb.2⟩
        · rintro ⟨⟨rfl, h⟩, ha⟩
          have := ih.2 ⟨h, ha⟩
          simp only [hs, Option.some.injEq, Prod.mk.injEq] at this
          exact ⟨⟨rfl, this.1⟩, this.2⟩
    | none =>
      have hn : sep ∉ s := cutLast_eq_none.1 hs
      by_cases h : c = sep
      · subst h
        cases before with
        | nil =>
          simp only [cutLast, hs, if_true, Option.some.injEq, Prod.mk.injEq, true_and,
            List.nil_append, List.cons.injEq, iff_self_and]
          rintro rfl
          exact hn
        | cons d before =>
          simp only [cutLast, hs, if_true, Option.some.injEq, Prod.mk.injEq, reduceCtorEq,
            false_and, List.cons_append, List.cons.injEq, false_iff, not_and, and_imp]
          rintro - rfl
          simp at hn
      · cases before with
        | nil => simp [cutLast, hs, h]
        | cons d before =>
          simp only [cutLast, hs, h, if_false, reduceCtorEq, List.cons_append, List.cons.injEq,
            false_iff, not_and, and_imp]
          rintro - rfl
          simp at hn

end ModuleRecovery
