import Mathlib.Logic.Relation
import ModuleRecovery.Proofs.Model.Index

set_option relaxedAutoImplicit false
set_option autoImplicit false

/-!
# Rearranged models

An extractor may list the methods of a class and the calls of a method in any order, and may
spread the methods of a class over several records of that class. Such models have the same
classes in the same order, and up to their order the same methods and the same calls. If no
two methods share a key under different labels, they also have the same label for every key.

## Main definitions

* `ModuleRecovery.Rearranges` — one change in the order of the methods or the calls of a model.
* `ModuleRecovery.SameContents` — two models hold the same up to the order of methods and calls.
* `ModuleRecovery.LabelsAgree` — no key has two labels.

## Main results

* `ModuleRecovery.Rearranges.sameContents` — one change keeps the contents of a model.
* `ModuleRecovery.sameContents_of_rearranges` — any number of changes keeps them.
* `ModuleRecovery.SameContents.lastLabel?_eq` — the labels of the keys are the same.
-/

namespace ModuleRecovery

open Relation

/-- One change in the order of a model: methods change places inside a record or between two
records of one class, or calls change places inside a method. -/
inductive Rearranges : List ClassRecord → List ClassRecord → Prop where
  /-- The methods of a record change places. -/
  | permuteMethods {before after : List ClassRecord} {c : ClassRecord} {ms : List MethodRecord}
      (h : ms.Perm c.methods) :
      Rearranges (before ++ c :: after) (before ++ { c with methods := ms } :: after)
  /-- Methods move between two records of one class. -/
  | moveMethods {before between after : List ClassRecord} {c d : ClassRecord}
      {ms ns : List MethodRecord} (hname : c.resolvedName = d.resolvedName)
      (h : (ms ++ ns).Perm (c.methods ++ d.methods)) :
      Rearranges (before ++ c :: (between ++ d :: after))
        (before ++ { c with methods := ms } :: (between ++ { d with methods := ns } :: after))
  /-- The calls of a method change places. -/
  | permuteCalls {before after : List ClassRecord} {c : ClassRecord} {ms ns : List MethodRecord}
      {m : MethodRecord} {ds : List CallRecord} (hm : c.methods = ms ++ m :: ns)
      (h : ds.Perm m.calls) :
      Rearranges (before ++ c :: after)
        (before ++ { c with methods := ms ++ { m with calls := ds } :: ns } :: after)

/-! ## The contents of a model -/

/-- The methods of a model, each with the name of its class. -/
def ownedMethods (classes : List ClassRecord) : List (String × MethodRecord) :=
  classes.flatMap fun c => c.methods.map (c.resolvedName, ·)

/-- A call of a model. -/
structure OwnedCall where
  /-- The class in which the call is made. -/
  owner : String
  /-- The method in which the call is made. -/
  source : MethodNode
  /-- The call itself. -/
  call : CallRecord

/-- The calls of a method of the class named `owner`. -/
def OwnedCall.ofMethod (owner : String) (m : MethodRecord) : List OwnedCall :=
  m.calls.map fun d => ⟨owner, MethodNode.ofMethod owner m, d⟩

/-- The calls of a model. -/
def ownedCalls (classes : List ClassRecord) : List OwnedCall :=
  (ownedMethods classes).flatMap fun p => OwnedCall.ofMethod p.1 p.2

/-- Two models have the same classes under the same names in the same order, and up to their
order the same methods and the same calls. -/
structure SameContents (classes classes' : List ClassRecord) : Prop where
  /-- The simple and the resolved names of the classes. -/
  names : classes'.map (fun c => (c.lookupName, c.resolvedName)) =
    classes.map fun c => (c.lookupName, c.resolvedName)
  /-- The methods. -/
  methodNodes : (methodNodes classes').Perm (methodNodes classes)
  /-- The calls. -/
  ownedCalls : (ownedCalls classes').Perm (ownedCalls classes)

variable {classes classes' classes'' : List ClassRecord} {key label : String}

theorem methodNodes_eq_map (classes : List ClassRecord) :
    methodNodes classes = (ownedMethods classes).map fun p => MethodNode.ofMethod p.1 p.2 := by
  simp [methodNodes, ownedMethods, List.map_flatMap, Function.comp_def]

theorem ownedMethods_append (classes classes' : List ClassRecord) :
    ownedMethods (classes ++ classes') = ownedMethods classes ++ ownedMethods classes' :=
  List.flatMap_append

theorem ownedMethods_cons (c : ClassRecord) (classes : List ClassRecord) :
    ownedMethods (c :: classes) = c.methods.map (c.resolvedName, ·) ++ ownedMethods classes :=
  List.flatMap_cons

/-- A call of a model is made in a method of some class. -/
theorem mem_ownedCalls {x : OwnedCall} :
    x ∈ ownedCalls classes ↔ ∃ c ∈ classes, ∃ m ∈ c.methods, ∃ d ∈ m.calls,
      ⟨c.resolvedName, MethodNode.ofMethod c.resolvedName m, d⟩ = x := by
  simp only [ownedCalls, ownedMethods, OwnedCall.ofMethod, List.mem_flatMap, List.mem_map]
  constructor
  · rintro ⟨_, ⟨c, hc, m, hm, rfl⟩, d, hd, rfl⟩
    exact ⟨c, hc, m, hm, d, hd, rfl⟩
  · rintro ⟨c, hc, m, hm, d, hd, rfl⟩
    exact ⟨_, ⟨c, hc, m, hm, rfl⟩, d, hd, rfl⟩

namespace SameContents

theorem refl (classes : List ClassRecord) : SameContents classes classes :=
  ⟨rfl, .refl _, .refl _⟩

theorem trans (h : SameContents classes classes') (h' : SameContents classes' classes'') :
    SameContents classes classes'' :=
  ⟨h'.names.trans h.names, h'.methodNodes.trans h.methodNodes, h'.ownedCalls.trans h.ownedCalls⟩

/-- Models with the same methods up to their order have the same contents. -/
theorem of_ownedMethods_perm
    (hnames : classes'.map (fun c => (c.lookupName, c.resolvedName)) =
      classes.map fun c => (c.lookupName, c.resolvedName))
    (h : (ownedMethods classes').Perm (ownedMethods classes)) : SameContents classes classes' where
  names := hnames
  methodNodes := by
    rw [methodNodes_eq_map, methodNodes_eq_map]
    exact h.map _
  ownedCalls := h.flatMap_right _

theorem map_resolvedName (h : SameContents classes classes') :
    classes'.map ClassRecord.resolvedName = classes.map ClassRecord.resolvedName := by
  simpa [Function.comp_def] using congrArg (List.map Prod.snd) h.names

/-- The two models have the same class names. -/
theorem exists_resolvedName_iff (h : SameContents classes classes') {name : String} :
    (∃ c ∈ classes', c.resolvedName = name) ↔ ∃ c ∈ classes, c.resolvedName = name := by
  simp only [← List.mem_map, h.map_resolvedName]

end SameContents

/-! ## Changes -/

/-- **One change keeps the contents of a model.** -/
theorem Rearranges.sameContents (h : Rearranges classes classes') :
    SameContents classes classes' := by
  cases h with
  | @permuteMethods before after c ms h =>
    refine .of_ownedMethods_perm (by simp; exact ⟨rfl, rfl⟩) ?_
    rw [ownedMethods_append, ownedMethods_append, ownedMethods_cons, ownedMethods_cons]
    exact ((h.map _).append_right _).append_left _
  | @moveMethods before between after c d ms ns hname h =>
    refine .of_ownedMethods_perm (by simp; exact ⟨⟨rfl, rfl⟩, rfl, rfl⟩) ?_
    -- with the two records in front, their methods stand next to each other
    have hfront : ∀ x y : ClassRecord, x.resolvedName = c.resolvedName →
        y.resolvedName = c.resolvedName →
        (ownedMethods (before ++ x :: (between ++ y :: after))).Perm
          ((x.methods ++ y.methods).map (c.resolvedName, ·) ++
            ownedMethods (before ++ (between ++ after))) := by
      intro x y hx hy
      have hperm : (before ++ x :: (between ++ y :: after)).Perm
          (x :: y :: (before ++ (between ++ after))) := by
        refine List.perm_middle.trans (List.Perm.cons x ?_)
        rw [← List.append_assoc, ← List.append_assoc]
        exact List.perm_middle
      refine (hperm.flatMap_right _).trans ?_
      show (ownedMethods (x :: y :: (before ++ (between ++ after)))).Perm _
      rw [ownedMethods_cons, ownedMethods_cons, hx, hy, List.map_append, List.append_assoc]
    refine (hfront { c with methods := ms } { d with methods := ns } rfl hname.symm).trans ?_
    exact ((h.map _).append_right _).trans (hfront c d rfl hname.symm).symm
  | @permuteCalls before after c ms ns m ds hm h =>
    have hmethods : ∀ (c' : ClassRecord) (x : MethodRecord), c'.resolvedName = c.resolvedName →
        c'.methods = ms ++ x :: ns → ownedMethods (before ++ c' :: after) =
          (ownedMethods before ++ ms.map (c.resolvedName, ·)) ++ (c.resolvedName, x) ::
            (ns.map (c.resolvedName, ·) ++ ownedMethods after) := by
      intro c' x hname hx
      rw [ownedMethods_append, ownedMethods_cons, hname, hx, List.map_append, List.map_cons]
      simp only [List.append_assoc, List.cons_append]
    have hbefore := hmethods c m rfl hm
    have hafter := hmethods { c with methods := ms ++ { m with calls := ds } :: ns } _ rfl rfl
    refine ⟨by simp; exact ⟨rfl, rfl⟩, .of_eq ?_, ?_⟩
    · simp only [methodNodes_eq_map, hafter, hbefore, List.map_append, List.map_cons]
      rfl
    · simp only [ownedCalls, hafter, hbefore, List.flatMap_append, List.flatMap_cons]
      exact ((h.map _).append_right _).append_left _

/-- **Any number of changes keeps the contents of a model.** -/
theorem sameContents_of_rearranges (h : ReflTransGen Rearranges classes classes') :
    SameContents classes classes' := by
  induction h with
  | refl => exact .refl classes
  | tail _ hstep ih => exact ih.trans hstep.sameContents

/-! ## Labels of keys -/

/-- No two methods share a key under different labels. -/
def LabelsAgree (classes : List ClassRecord) : Prop :=
  ∀ n ∈ methodNodes classes, ∀ n' ∈ methodNodes classes, n.key = n'.key → n.label = n'.label

/-- The label of a key is that of any method with the key. -/
theorem LabelsAgree.lastLabel?_eq_some_iff (h : LabelsAgree classes) :
    lastLabel? classes key = some label ↔
      ∃ n ∈ methodNodes classes, n.key = key ∧ n.label = label := by
  constructor
  · exact exists_of_lastLabel?_eq_some
  · rintro ⟨n, hn, rfl, rfl⟩
    obtain ⟨label, hlabel⟩ := exists_lastLabel? hn
    obtain ⟨n', hn', hkey, rfl⟩ := exists_of_lastLabel?_eq_some hlabel
    rw [hlabel, h n' hn' n hn hkey]

/-- **The labels of the keys are the same**, if no key has two. -/
theorem SameContents.lastLabel?_eq (h : SameContents classes classes')
    (hlabels : LabelsAgree classes) (key : String) :
    lastLabel? classes' key = lastLabel? classes key := by
  have hlabels' : LabelsAgree classes' := fun n hn n' hn' =>
    hlabels n (h.methodNodes.mem_iff.1 hn) n' (h.methodNodes.mem_iff.1 hn')
  refine Option.ext fun label => ?_
  show lastLabel? classes' key = some label ↔ lastLabel? classes key = some label
  rw [hlabels'.lastLabel?_eq_some_iff, hlabels.lastLabel?_eq_some_iff]
  simp only [h.methodNodes.mem_iff]

end ModuleRecovery
