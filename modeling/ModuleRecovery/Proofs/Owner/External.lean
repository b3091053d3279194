import ModuleRecovery.CallGraph.Basic
import ModuleRecovery.Proofs.Owner.SimpleNames
import ModuleRecovery.Proofs.Text.Prefix

set_option relaxedAutoImplicit false
set_option autoImplicit false

/-!
# Owners of nodes outside the model

The label of a node outside the model starts with a mark, and the reading of a label leaves
the mark in front of the owner. So if no class is named like that, such a node has no owner
in the model.

## Main definitions

* `ModuleRecovery.externalWord` — the word that the mark consists of.
* `ModuleRecovery.NoExternalNames` — no class is named like a node outside the model.

## Main results

* `ModuleRecovery.externalWord_prefix_of_ownerCandidate?` — the owner read from such a label
  starts with the word.
* `ModuleRecovery.resolveOwner?_of_isExternal` — no such label has an owner in the model.
-/

namespace ModuleRecovery

/-- The word that the mark of the nodes outside the model consists of. -/
def externalWord : String :=
  "[EXT]"

/-- No class of a model has a full or a simple name that starts with the word. -/
def NoExternalNames (classes : List ClassRecord) : Prop :=
  ∀ c ∈ classes, startsWith externalWord c.resolvedName = false ∧
    startsWith externalWord c.lookupName = false

theorem startsWith_iff {mark s : String} : startsWith mark s = true ↔ mark.toList <+: s.toList :=
  List.isPrefixOf_iff_prefix

theorem isExternal_externalNode (target : String) : isExternal (externalNode target) = true := by
  rw [isExternal, startsWith_iff, externalNode, String.toList_append]
  exact List.prefix_append _ _

/-- **The owner read from the label of a node outside the model starts with the word of its
mark.**

**Proof sketch.** The word has no blank, no parenthesis, no dot and no dollar sign in it, so
every step of the reading leaves it at the beginning. -/
theorem externalWord_prefix_of_ownerCandidate? {label c : String} (hext : isExternal label = true)
    (hc : ownerCandidate? label = some c) : startsWith externalWord c = true := by
  have hword : externalWord.toList <+: label.toList :=
    List.IsPrefix.trans ⟨[' '], rfl⟩ (startsWith_iff.1 hext)
  have hblank : ∀ d ∈ externalWord.toList, isBlank d = false := by simp [externalWord, isBlank]
  simp only [ownerCandidate?, Option.bind_eq_bind, Option.bind_eq_some_iff, Prod.exists] at hc
  obtain ⟨head, after, hhead, owner, after', howner, hname⟩ := hc
  have hhead' : externalWord.toList <+: head :=
    prefix_cutFirst hhead (prefix_trim hword hblank) (by decide)
  have howner' : externalWord.toList <+: owner := prefix_cutLast howner hhead' (by decide)
  have hdotted : externalWord.toList <+: owner.map dotted := howner'.map dotted
  split at hname
  · cases hname
  · split at hname
    · cases hname
    · obtain rfl := Option.some.inj hname
      rw [startsWith_iff, String.toList_ofList]
      exact prefix_trim hdotted hblank

/-! ## Resolvers -/

/-- The resolver of a model finds nothing under a name that no class has. -/
theorem ofClasses_eq_none {policy : CollisionPolicy} {classes : List ClassRecord} {name : String}
    (h : ∀ c ∈ classes, c.resolvedName ≠ name ∧ c.lookupName ≠ name) :
    OwnerResolver.ofClasses policy classes name = none := by
  have hname : name ∉ classes.map ClassRecord.resolvedName := by
    intro hmem
    obtain ⟨c, hc, heq⟩ := List.mem_map.1 hmem
    exact (h c hc).1 heq
  rw [OwnerResolver.ofClasses_apply, if_neg hname, Option.eq_none_iff_forall_ne_some]
  intro q hq
  obtain ⟨c, hc, heq⟩ := List.mem_map.1 (OwnerResolver.mem_of_simple_eq_some hq)
  exact (h c hc).2 (Prod.mk.inj heq).1

/-- **No node outside the model has an owner in it**, unless a class is named like one. -/
theorem resolveOwner?_of_isExternal {policy : CollisionPolicy} {classes : List ClassRecord}
    (hclasses : NoExternalNames classes) {label : String} (hext : isExternal label = true) :
    resolveOwner? (OwnerResolver.ofClasses policy classes) label = none := by
  rw [resolveOwner?, Option.bind_eq_none_iff]
  intro name hname
  have hword := externalWord_prefix_of_ownerCandidate? hext hname
  refine ofClasses_eq_none fun c hc => ⟨?_, ?_⟩
  · rintro rfl
    rw [(hclasses c hc).1] at hword
    cases hword
  · rintro rfl
    rw [(hclasses c hc).2] at hword
    cases hword

end ModuleRecovery
