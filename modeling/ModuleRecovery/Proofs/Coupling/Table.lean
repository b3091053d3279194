import Mathlib.Data.List.Perm.Basic
import Mathlib.Data.String.Basic
import ModuleRecovery.Coupling.Table
import ModuleRecovery.Proofs.Number.Counts

set_option relaxedAutoImplicit false
set_option autoImplicit false

/-!
# The table agrees with the scan

The table folds all resolved edges into counts of unordered pairs, the scan counts the edges
between two classes afresh. Entering an edge adds one to the count of exactly those pairs
that the scan would count the edge for, so both find the same numbers, and the order in
which the edges are entered does not matter.

## Main results

* `ModuleRecovery.ClassPair.of_eq_of_iff` — a pair forgets the order of its names, and nothing
  else.
* `ModuleRecovery.CouplingTable.edgesBetween_ofOwners` — the counts of the table.
* `ModuleRecovery.CouplingTable.ofOwners_perm` — the order of the edges.
* `ModuleRecovery.CouplingTable.coupling_ofGraph` — the coupling of the table is that of the scan.
* `ModuleRecovery.table_coupling_eq_scan` — the table agrees with the scan.
-/

namespace ModuleRecovery

open Number

namespace ClassPair

theorem of_comm (a b : String) : ClassPair.of a b = ClassPair.of b a := by
  unfold ClassPair.of
  split_ifs with hab hba hba
  · rw [le_antisymm hab hba]
  · rfl
  · rfl
  · exact absurd (le_total a b) (by simp [hab, hba])

/-- The pair of two names is that of two others exactly if they are the same two names. -/
theorem of_eq_of_iff {a b c d : String} :
    ClassPair.of a b = ClassPair.of c d ↔ (a = c ∧ b = d) ∨ (a = d ∧ b = c) := by
  constructor
  · intro h
    unfold ClassPair.of at h
    split_ifs at h <;> obtain ⟨rfl, rfl⟩ := ClassPair.mk.inj h <;> simp
  · rintro (⟨rfl, rfl⟩ | ⟨rfl, rfl⟩)
    · rfl
    · exact of_comm a b

end ClassPair

/-! ## Shares -/

/-- Nothing is a share of zero. -/
theorem share_zero (n : Nat) : share 0 n = 0 := by
  unfold share
  split
  · rfl
  · exact zero_div_ofNat (by omega)

/-! ## The scan -/

/-- The owners of an edge are the owners of its two ends. -/
theorem ownersOfEdge?_eq_some {resolver : OwnerResolver} {e : String × String} {a b : String} :
    ownersOfEdge? resolver e = some (a, b) ↔
      resolveOwner? resolver e.1 = some a ∧ resolveOwner? resolver e.2 = some b := by
  unfold ownersOfEdge?
  cases resolveOwner? resolver e.1 <;> cases resolveOwner? resolver e.2 <;> simp

theorem isBetween_comm (a b : String) (o : String × String) :
    isBetween a b o = isBetween b a o := by
  unfold isBetween
  exact Bool.or_comm _ _

/-- An edge is between two classes exactly if its owners make the same unordered pair. -/
theorem isBetween_iff {a b : String} {o : String × String} :
    isBetween a b o = true ↔ ClassPair.of a b = ClassPair.of o.1 o.2 := by
  simp only [isBetween, Bool.or_eq_true, Bool.and_eq_true, decide_eq_true_eq,
    ClassPair.of_eq_of_iff]
  constructor
  · rintro (⟨h1, h2⟩ | ⟨h1, h2⟩)
    · exact .inl ⟨h1.symm, h2.symm⟩
    · exact .inr ⟨h2.symm, h1.symm⟩
  · rintro (⟨h1, h2⟩ | ⟨h1, h2⟩)
    · exact .inl ⟨h1.symm, h2.symm⟩
    · exact .inr ⟨h2.symm, h1.symm⟩

theorem couplingByScan_comm (g : Digraph String) (resolver : OwnerResolver) (a b : String) :
    couplingByScan g resolver a b = couplingByScan g resolver b a := by
  have hbetween : isBetween a b = isBetween b a := funext (isBetween_comm a b)
  unfold couplingByScan
  rw [hbetween]
  simp only [eq_comm (a := a)]

theorem couplingByScan_self (g : Digraph String) (resolver : OwnerResolver) (a : String) :
    couplingByScan g resolver a a = 0 :=
  if_pos rfl

namespace CouplingTable

/-! ## The counts of the table -/

variable {a b : String}

theorem edgesBetween_self (table : CouplingTable) (a : String) : table.edgesBetween a a = 0 :=
  if_pos rfl

theorem edgesBetween_comm (table : CouplingTable) (a b : String) :
    table.edgesBetween a b = table.edgesBetween b a := by
  unfold edgesBetween
  rw [ClassPair.of_comm a b]
  simp only [eq_comm (a := a)]

/-- Entering an edge adds one to the counts that the scan would count it for. -/
theorem edgesBetween_record (hab : a ≠ b) (table : CouplingTable) (o : String × String) :
    (table.record o).edgesBetween a b =
      table.edgesBetween a b + if isBetween a b o = true then 1 else 0 := by
  simp only [edgesBetween, if_neg hab, record, isBetween_iff]
  by_cases ho : o.1 = o.2
  · have hne : ¬ ClassPair.of a b = ClassPair.of o.1 o.2 := by
      rw [ho, ClassPair.of_eq_of_iff]
      rintro (⟨rfl, rfl⟩ | ⟨rfl, rfl⟩) <;> exact hab rfl
    rw [if_pos ho, if_neg hne, Nat.add_zero]
  · rw [if_neg ho, OrderedMap.get?_upsert]
    split
    next heq => rw [heq, Option.getD_some]
    next => rfl

/-- Entering a list of edges counts them all, and adds to each count the edges that the scan
would count. -/
theorem foldl_record (owners : List (String × String)) (table : CouplingTable) :
    (owners.foldl record table).resolvedEdges = table.resolvedEdges + owners.length ∧
      ∀ a b, a ≠ b → (owners.foldl record table).edgesBetween a b =
        table.edgesBetween a b + owners.countP (isBetween a b) := by
  induction owners generalizing table with
  | nil => exact ⟨rfl, fun _ _ _ => rfl⟩
  | cons o owners ih =>
    obtain ⟨hlen, hcount⟩ := ih (table.record o)
    rw [List.foldl_cons]
    constructor
    · rw [hlen, List.length_cons]
      simp only [record]
      omega
    · intro a b hab
      rw [hcount a b hab, edgesBetween_record hab, List.countP_cons]
      omega

theorem resolvedEdges_ofOwners (owners : List (String × String)) :
    (ofOwners owners).resolvedEdges = owners.length := by
  rw [ofOwners, (foldl_record owners {}).1]
  exact Nat.zero_add _

/-- **The table counts what the scan counts.** -/
theorem edgesBetween_ofOwners (hab : a ≠ b) (owners : List (String × String)) :
    (ofOwners owners).edgesBetween a b = owners.countP (isBetween a b) := by
  have hstart : ({} : CouplingTable).edgesBetween a b = 0 := by
    rw [edgesBetween, if_neg hab]
    rfl
  rw [ofOwners, (foldl_record owners {}).2 a b hab, hstart, Nat.zero_add]

/-- **The order in which the edges are entered does not matter.** -/
theorem ofOwners_perm {owners owners' : List (String × String)} (h : owners'.Perm owners) :
    (ofOwners owners').resolvedEdges = (ofOwners owners).resolvedEdges ∧
      ∀ a b, (ofOwners owners').edgesBetween a b = (ofOwners owners).edgesBetween a b := by
  refine ⟨by rw [resolvedEdges_ofOwners, resolvedEdges_ofOwners, h.length_eq], fun a b => ?_⟩
  by_cases hab : a = b
  · rw [hab, edgesBetween_self, edgesBetween_self]
  · rw [edgesBetween_ofOwners hab, edgesBetween_ofOwners hab, h.countP_eq]

theorem coupling_comm (table : CouplingTable) (a b : String) :
    table.coupling a b = table.coupling b a := by
  rw [coupling, coupling, edgesBetween_comm]

theorem coupling_self (table : CouplingTable) (a : String) : table.coupling a a = 0 := by
  rw [coupling, edgesBetween_self, share_zero]

/-- **The coupling of the table is that of the scan.** -/
theorem coupling_ofGraph (g : Digraph String) (resolver : OwnerResolver) (a b : String) :
    (ofGraph resolver g).coupling a b = couplingByScan g resolver a b := by
  by_cases hab : a = b
  · rw [hab, coupling_self, couplingByScan_self]
  · rw [couplingByScan, if_neg hab, coupling, ofGraph, edgesBetween_ofOwners hab,
      resolvedEdges_ofOwners]

end CouplingTable

/-- **The table agrees with the scan.** Both are symmetric, and zero for one class, and the
counts of the table do not depend on the order in which the edges of the graph are entered. -/
theorem table_coupling_eq_scan (g : Digraph String) (resolver : OwnerResolver) (a b : String) :
    (CouplingTable.ofGraph resolver g).coupling a b = couplingByScan g resolver a b ∧
      (CouplingTable.ofGraph resolver g).coupling a b =
        (CouplingTable.ofGraph resolver g).coupling b a ∧
      couplingByScan g resolver a b = couplingByScan g resolver b a ∧
      (CouplingTable.ofGraph resolver g).coupling a a = 0 ∧ couplingByScan g resolver a a = 0 ∧
      ∀ edges : List (String × String), edges.Perm g.edges →
        let table := CouplingTable.ofOwners (edges.filterMap (ownersOfEdge? resolver))
        table.resolvedEdges = (CouplingTable.ofGraph resolver g).resolvedEdges ∧
          ∀ c d, table.edgesBetween c d = (CouplingTable.ofGraph resolver g).edgesBetween c d := by
  exact ⟨CouplingTable.coupling_ofGraph g resolver a b, CouplingTable.coupling_comm _ a b,
    couplingByScan_comm g resolver a b, CouplingTable.coupling_self _ a,
    couplingByScan_self g resolver a, fun edges h => CouplingTable.ofOwners_perm (h.filterMap _)⟩

end ModuleRecovery
