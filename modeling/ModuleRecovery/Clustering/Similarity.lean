set_option relaxedAutoImplicit false
set_option autoImplicit false

/-!
# Similarities

Similarities are numbers between zero and one. A similarity function may return anything,
so each of its values is clamped first. The similarities of all pairs of a list are computed
once and kept row by row in one flat table, which is symmetric: for two positions the
function is asked with the earlier item first.

## Main definitions

* `ModuleRecovery.clampUnit` — the nearest number between zero and one.
* `ModuleRecovery.SimilarityMatrix` — the flat table.
* `ModuleRecovery.SimilarityMatrix.ofList` — the similarities of the items of a list.
-/

universe u

namespace ModuleRecovery

/-- The number between zero and one that is nearest to `x`; no number counts as zero. -/
def clampUnit (x : Float) : Float :=
  if x.isNaN then 0
  else if x < 0 then 0
  else if 1 < x then 1
  else x

/-- A square table of similarities, row by row. -/
structure SimilarityMatrix (n : Nat) where
  /-- The entries of all rows, one after the other. -/
  values : Vector Float (n * n)

namespace SimilarityMatrix

variable {n : Nat}

/-- Where the entry of row `i` and column `j` stands in the flat table. -/
def position (i j : Fin n) : Fin (n * n) :=
  ⟨i * n + j, by
    calc i * n + j < i * n + n := Nat.add_lt_add_left j.isLt _
      _ = (i + 1) * n := (Nat.succ_mul _ _).symm
      _ ≤ n * n := Nat.mul_le_mul_right n i.isLt⟩

/-- The row of an entry of the flat table. -/
def row (p : Fin (n * n)) : Fin n :=
  ⟨p / n, Nat.div_lt_of_lt_mul p.isLt⟩

/-- The column of an entry of the flat table. -/
def column (p : Fin (n * n)) : Fin n :=
  ⟨p % n, Nat.mod_lt _ (Nat.pos_of_ne_zero fun h => by
    have := p.isLt
    simp [h] at this)⟩

/-- The similarity of row `i` and column `j`. -/
def get (m : SimilarityMatrix n) (i j : Fin n) : Float :=
  m.values[position i j]

/-- The similarity of the items at two positions: the earlier item is the function's first
argument, and nothing is similar to itself. -/
def entry {α : Type u} (items : List α) (similarity : α → α → Float)
    (i j : Fin items.length) : Float :=
  if i < j then clampUnit (similarity (items.get i) (items.get j))
  else if j < i then clampUnit (similarity (items.get j) (items.get i))
  else 0

/-- The similarities of the items of a list. -/
def ofList {α : Type u} (items : List α) (similarity : α → α → Float) :
    SimilarityMatrix items.length :=
  ⟨.ofFn fun p => entry items similarity (row p) (column p)⟩

end SimilarityMatrix

end ModuleRecovery
