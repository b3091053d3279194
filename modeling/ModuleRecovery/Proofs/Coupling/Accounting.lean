import ModuleRecovery.Proofs.Collections.OrderedSet
import ModuleRecovery.Proofs.Collections.Pairs
import ModuleRecovery.Proofs.Coupling.Table

set_option relaxedAutoImplicit false
set_option autoImplicit false

/-!
# Every resolved edge is counted once

The denominator of the metric counts all resolved edges. Each of them has either one owner at
both ends, or two different owners, and then it is counted between these two and between no
other two. So the counts of all pairs of owners and the edges inside the owners add up to the
denominator, and the shares of different pairs never add up to more than one.

## Main definitions

* `ModuleRecovery.occurringOwners` — the owners found at the ends of the resolved edges.
* `ModuleRecovery.isInside` — an edge has the same owner at both ends.
* `ModuleRecovery.CouplingTable.crossingEdges` — the counts of all pairs of a list of names.
* `ModuleRecovery.CouplingTable.exactCoupling` — the coupling as a rational number.

## Main results

* `ModuleRecovery.countP_unorderedPairs_isBetween` — an edge is between two names of a list at
  most once.
* `ModuleRecovery.CouplingTable.crossingEdges_ofOwners` — what all pairs count together.
* `ModuleRecovery.resolvedEdges_accounting` — the counts add up.
-/

namespace ModuleRecovery

variable {names : List String} {o : String × String} {owners : List (String × String)}

/-- The owners of the ends of the resolved edges, each once. -/
def occurringOwners (resolver : OwnerResolver) (g : Digraph String) : List String :=
  ((edgeOwners resolver g).flatMap fun o => [o.1, o.2]).eraseDups

/-- Whether both ends of an edge have the same owner. -/
def isInside (resolver : OwnerResolver) (e : String × String) : Bool :=
  (resolveOwner? resolver e.1).isSome && resolveOwner? resolver e.1 = resolveOwner? resolver e.2

/-- Whether the two ends of an edge have different owners, both from a list of names. -/
def isAcross (names : List String) (o : String × String) : Bool :=
  o.1 ≠ o.2 && o.1 ∈ names && o.2 ∈ names

/-! ## One edge -/

/-- How often a name that is not in the list makes up an edge with a name of the list. -/
theorem countP_isBetween_of_notMem {a : String} (ha : a ∉ names) (hnd : names.Nodup)
    (o : String × String) :
    names.countP (isBetween a · o) =
      if o.1 = a ∧ o.2 ∈ names ∨ o.2 = a ∧ o.1 ∈ names then 1 else 0 := by
  obtain ⟨c, d⟩ := o
  by_cases hc : c = a
  · subst hc
    have hcount : names.countP (isBetween c · (c, d)) = names.count d := by
      refine List.countP_congr fun b hb => ?_
      have hcb : ¬ c = b := fun h => ha (h ▸ hb)
      simp only [isBetween, hcb, decide_true, decide_false, Bool.true_and, Bool.false_and,
        Bool.or_false, decide_eq_true_eq, beq_iff_eq]
      exact eq_comm
    rw [hcount, hnd.count]
    exact if_congr (by simp only [true_and, ha, and_false, or_false]) rfl rfl
  · by_cases hd : d = a
    · have hcount : names.countP (isBetween a · (c, d)) = names.count c := by
        refine List.countP_congr fun b _ => ?_
        simp only [isBetween, hc, hd, decide_true, decide_false, Bool.and_true, Bool.false_and,
          Bool.false_or, decide_eq_true_eq, beq_iff_eq]
        exact eq_comm
      rw [hcount, hnd.count]
      exact if_congr (by simp only [hc, hd, false_and, true_and, false_or]) rfl rfl
    · rw [if_neg (by simp only [hc, hd, false_and, or_self, not_false_iff]), List.countP_eq_zero]
      intro b _
      simp [isBetween, hc, hd]

/-- **An edge is between two names of a list at most once**: exactly if its owners are different
names of the list. -/
theorem countP_unorderedPairs_isBetween (hnd : names.Nodup) (o : String × String) :
    (unorderedPairs names).countP (fun p => isBetween p.1 p.2 o) =
      if isAcross names o then 1 else 0 := by
  induction names with
  | nil => simp [unorderedPairs, isAcross]
  | cons a names ih =>
    obtain ⟨ha, hnd⟩ := List.nodup_cons.1 hnd
    have hfirst : (names.map (a, ·)).countP (fun p => isBetween p.1 p.2 o) =
        names.countP (isBetween a · o) := by
      rw [List.countP_map]
      rfl
    rw [unorderedPairs, List.countP_append, hfirst, countP_isBetween_of_notMem ha hnd, ih hnd]
    -- an edge with the first name at one end is in no pair of the others
    obtain ⟨c, d⟩ := o
    by_cases hc : c = a
    · subst hc
      by_cases hd : d = c
      · simp [isAcross, hd, ha]
      · simp [isAcross, hd, ha, Ne.symm hd]
    · by_cases hd : d = a
      · simp [isAcross, hc, hd, ha]
      · simp [isAcross, hc, hd]

namespace CouplingTable

/-! ## All edges -/

/-- The edges between any two names of a list, added up over all pairs. -/
def crossingEdges (table : CouplingTable) (names : List String) : Nat :=
  ((unorderedPairs names).map fun p => table.edgesBetween p.1 p.2).sum

/-- The coupling of the classes named `a` and `b` as a rational number; as a quotient of zero by
zero it is zero. -/
def exactCoupling (table : CouplingTable) (a b : String) : ℚ :=
  table.edgesBetween a b / table.resolvedEdges

/-- **What all pairs count together** are the edges between different names of the list.

**Proof sketch.** One more edge adds one to the count of every pair that it is between, and
there is one such pair or none. -/
theorem crossingEdges_ofOwners (hnd : names.Nodup) (owners : List (String × String)) :
    (ofOwners owners).crossingEdges names = owners.countP (isAcross names) := by
  have hne : ∀ p ∈ unorderedPairs names, p.1 ≠ p.2 := pairwise_iff_unorderedPairs.1 hnd
  have hcounts : (ofOwners owners).crossingEdges names =
      ((unorderedPairs names).map fun p => owners.countP (isBetween p.1 p.2)).sum := by
    rw [crossingEdges]
    exact congrArg List.sum <| List.map_congr_left fun p hp => edgesBetween_ofOwners (hne p hp) _
  rw [hcounts]
  clear hcounts
  induction owners with
  | nil => simp
  | cons o owners ih =>
    have hone : ((unorderedPairs names).map fun p =>
        if isBetween p.1 p.2 o = true then 1 else 0).sum = if isAcross names o then 1 else 0 := by
      rw [← countP_unorderedPairs_isBetween hnd, List.countP_eq_length_filter, List.sum_map_ite]
      simp
    simp only [List.countP_cons]
    rw [List.sum_map_add, ih, hone]

/-- Two names of a list without repetitions share no more edges than there are. -/
theorem crossingEdges_le (hnd : names.Nodup) (owners : List (String × String)) :
    (ofOwners owners).crossingEdges names ≤ (ofOwners owners).resolvedEdges := by
  rw [crossingEdges_ofOwners hnd, resolvedEdges_ofOwners]
  exact List.countP_le_length

/-- Two classes share no more edges than there are. -/
theorem edgesBetween_le (owners : List (String × String)) (a b : String) :
    (ofOwners owners).edgesBetween a b ≤ (ofOwners owners).resolvedEdges := by
  by_cases hab : a = b
  · rw [hab, edgesBetween_self]
    exact Nat.zero_le _
  · rw [edgesBetween_ofOwners hab, resolvedEdges_ofOwners]
    exact List.countP_le_length

/-- The exact couplings of all pairs add up to the share of the edges that all pairs count. -/
theorem sum_exactCoupling (table : CouplingTable) (names : List String) :
    ((unorderedPairs names).map fun p => table.exactCoupling p.1 p.2).sum =
      (table.crossingEdges names : ℚ) / table.resolvedEdges := by
  simp only [exactCoupling, div_eq_mul_inv, crossingEdges]
  rw [List.sum_map_mul_right, Nat.cast_list_sum, List.map_map]
  rfl

end CouplingTable

/-! ## The graph -/

/-- An edge has one owner at both ends exactly if it is resolved to this owner twice. -/
theorem countP_isInside (resolver : OwnerResolver) (g : Digraph String) :
    g.edges.countP (isInside resolver) =
      (edgeOwners resolver g).countP fun o => o.1 = o.2 := by
  rw [edgeOwners, List.countP_filterMap]
  refine List.countP_congr fun e _ => ?_
  unfold isInside ownersOfEdge?
  cases resolveOwner? resolver e.1 <;> cases resolveOwner? resolver e.2 <;> simp

theorem nodup_occurringOwners (resolver : OwnerResolver) (g : Digraph String) :
    (occurringOwners resolver g).Nodup :=
  OrderedSet.nodup_eraseDups _

theorem mem_occurringOwners {resolver : OwnerResolver} {g : Digraph String}
    (ho : o ∈ edgeOwners resolver g) :
    o.1 ∈ occurringOwners resolver g ∧ o.2 ∈ occurringOwners resolver g := by
  simp only [occurringOwners, List.mem_eraseDups, List.mem_flatMap]
  exact ⟨⟨o, ho, by simp⟩, ⟨o, ho, by simp⟩⟩

/-- **Every resolved edge is counted once.** The edges between any two different owners that
occur, added up over all pairs, and the edges with one owner at both ends are together the
resolved edges. So the pairs of any list of different names count at most the resolved edges, and
their couplings, taken as rational numbers between zero and one, add up to at most one.

**Proof sketch.** An edge with different owners is between one pair of the names that occur, and
between at most one pair of any list of different names. -/
theorem resolvedEdges_accounting (g : Digraph String) (resolver : OwnerResolver) :
    let table := CouplingTable.ofGraph resolver g
    table.resolvedEdges = table.crossingEdges (occurringOwners resolver g) +
        g.edges.countP (isInside resolver) ∧
      (∀ names : List String, names.Nodup →
        table.crossingEdges names ≤ table.resolvedEdges ∧
          ((unorderedPairs names).map fun p => table.exactCoupling p.1 p.2).sum ≤ 1) ∧
      ∀ a b, 0 ≤ table.exactCoupling a b ∧ table.exactCoupling a b ≤ 1 := by
  intro table
  refine ⟨?_, fun names hnd => ?_, fun a b => ⟨?_, ?_⟩⟩
  · have hacross : (edgeOwners resolver g).countP (isAcross (occurringOwners resolver g)) =
        (edgeOwners resolver g).countP fun o => decide (¬ decide (o.1 = o.2) = true) := by
      refine List.countP_congr fun o ho => ?_
      simp [isAcross, mem_occurringOwners ho]
    show (CouplingTable.ofOwners _).resolvedEdges = (CouplingTable.ofOwners _).crossingEdges _ + _
    rw [CouplingTable.crossingEdges_ofOwners (nodup_occurringOwners resolver g), hacross,
      countP_isInside, CouplingTable.resolvedEdges_ofOwners, Nat.add_comm]
    exact List.length_eq_countP_add_countP _
  · have hle : table.crossingEdges names ≤ table.resolvedEdges :=
      CouplingTable.crossingEdges_le hnd (edgeOwners resolver g)
    refine ⟨hle, ?_⟩
    rw [CouplingTable.sum_exactCoupling]
    exact div_le_one_of_le₀ (by exact_mod_cast hle) (by positivity)
  · exact div_nonneg (Nat.cast_nonneg _) (Nat.cast_nonneg _)
  · have hle : table.edgesBetween a b ≤ table.resolvedEdges :=
      CouplingTable.edgesBetween_le (edgeOwners resolver g) a b
    exact div_le_one_of_le₀ (by exact_mod_cast hle) (by positivity)

/-- Calls between three classes in both directions, inside one of them, and to a printer that no
class owns. -/
def threeOwnersGraph : Digraph String :=
  (∅ : Digraph String).addEdges
    [("p.A.run()", "p.B.get()"), ("p.B.get()", "p.A.run()"), ("p.A.run()", "p.C.put()"),
      ("p.A.run()", "p.A.stop()"), ("p.C.put()", "[EXT] print()")]

set_option maxRecDepth 4000 in
/-- Of the four resolved edges, three are between two classes and one is inside a class; two
classes of the three count two of them. -/
theorem resolvedEdges_accounting_threeOwnersGraph :
    let resolver := OwnerResolver.exact ["p.A", "p.B", "p.C"]
    let table := CouplingTable.ofGraph resolver threeOwnersGraph
    ["p.B", "p.A"].Nodup ∧
      table.resolvedEdges = 4 ∧
      occurringOwners resolver threeOwnersGraph = ["p.A", "p.B", "p.C"] ∧
      table.crossingEdges ["p.A", "p.B", "p.C"] = 3 ∧
      threeOwnersGraph.edges.countP (isInside resolver) = 1 ∧
      table.crossingEdges ["p.B", "p.A"] = 2 ∧
      table.crossingEdges ["p.B", "p.A"] ≤ table.resolvedEdges := by
  intro resolver table
  have hnd : ["p.B", "p.A"].Nodup := by decide
  obtain ⟨-, hle, -⟩ := resolvedEdges_accounting threeOwnersGraph resolver
  exact ⟨hnd, by decide +kernel, by decide +kernel, by decide +kernel, by decide +kernel,
    by decide +kernel, (hle _ hnd).1⟩

end ModuleRecovery
