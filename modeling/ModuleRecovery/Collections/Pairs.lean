set_option relaxedAutoImplicit false
set_option autoImplicit false

/-!
# Unordered pairs of a list

Every quantity about "all pairs" is computed over the pairs of a list at increasing
positions, the first position varying slowest.

## Main definitions

* `ModuleRecovery.unorderedPairs` — the pairs `(xᵢ, xⱼ)` with `i < j`.
-/

universe u

namespace ModuleRecovery

/-- The pairs of items at increasing positions, the first position varying slowest. -/
def unorderedPairs {α : Type u} : List α → List (α × α)
  | [] => []
  | x :: xs => xs.map (x, ·) ++ unorderedPairs xs

end ModuleRecovery
