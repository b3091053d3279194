import Mathlib.Data.List.Induction
import ModuleRecovery.Owner.Resolver
import ModuleRecovery.Proofs.Collections.OrderedSet

set_option relaxedAutoImplicit false
set_option autoImplicit false

/-!
# What a simple name stands for

Names are registered one after the other, and the table remembers for each simple name no more
than what it stands for so far. This is enough to answer as if all registrations were looked at
once: where the last one counts, the table holds the last one, and where collisions are refused
it holds a class exactly if all registrations name this class. A name that collided stays without
a class, whatever is registered later, and a class that is registered again does not collide with
itself.

## Main definitions

* `ModuleRecovery.registrations` — the classes registered under a simple name.
* `ModuleRecovery.NameBinding.Agrees` — what is remembered of the registrations of a name.

## Main results

* `ModuleRecovery.NameBinding.Agrees.register` — one more registration.
* `ModuleRecovery.agrees_simpleNameTable` — all registrations.
* `ModuleRecovery.OwnerResolver.simple_reject_eq_some_iff` — what resolves where collisions are
  refused.
* `ModuleRecovery.resolution_byPolicy` — what simple names and owners resolve to.
-/

namespace ModuleRecovery

variable {policy : CollisionPolicy} {entries : List (String × String)} {name q : String}

/-- The classes registered under a simple name, in the order of the registrations. -/
def registrations (entries : List (String × String)) (name : String) : List String :=
  (entries.filter (·.1 = name)).map Prod.snd

theorem mem_registrations : q ∈ registrations entries name ↔ (name, q) ∈ entries := by
  simp only [registrations, List.mem_map, List.mem_filter, decide_eq_true_eq]
  constructor
  · rintro ⟨e, ⟨he, rfl⟩, rfl⟩
    exact he
  · exact fun h => ⟨(name, q), ⟨h, rfl⟩, rfl⟩

/-- One more registration counts for its own name only. -/
theorem registrations_concat (entries : List (String × String)) (e : String × String)
    (name : String) : registrations (entries ++ [e]) name =
      if name = e.1 then registrations entries name ++ [e.2] else registrations entries name := by
  by_cases h : e.1 = name
  · simp [registrations, List.filter_append, h]
  · simp [registrations, List.filter_append, h, Ne.symm h]

/-! ## The table -/

/-- One more registration changes what its own name stands for. -/
theorem get?_simpleNameTable_concat (policy : CollisionPolicy) (entries : List (String × String))
    (e : String × String) (name : String) :
    (simpleNameTable policy (entries ++ [e])).get? name =
      if name = e.1 then
        some (NameBinding.register policy e.2 ((simpleNameTable policy entries).get? name))
      else (simpleNameTable policy entries).get? name := by
  have hstep : simpleNameTable policy (entries ++ [e]) =
      (simpleNameTable policy entries).upsert e.1 (NameBinding.register policy e.2) := by
    rw [simpleNameTable, List.foldl_append]
    rfl
  rw [hstep, OrderedMap.get?_upsert]
  split
  next h => rw [h]
  next => rfl

/-- **Where the last registration counts, the table holds the last one.** -/
theorem get?_simpleNameTable_lastRegistered (entries : List (String × String)) (name : String) :
    (simpleNameTable .lastRegistered entries).get? name =
      (registrations entries name).getLast?.map .unique := by
  induction entries using List.reverseRecOn with
  | nil => rfl
  | append_singleton entries e ih =>
    rw [get?_simpleNameTable_concat, registrations_concat, ih]
    split
    · cases (registrations entries name).getLast?.map NameBinding.unique <;>
        simp [NameBinding.register]
    · rfl

namespace NameBinding

/-- What is remembered of the classes `qs` registered under a name, where collisions are refused:
nothing of no registration, a class if all registrations name it, and a collision if two of them
name different classes. -/
def Agrees (qs : List String) : Option NameBinding → Prop
  | none => qs = []
  | some (unique q) => q ∈ qs ∧ ∀ q' ∈ qs, q' = q
  | some ambiguous => ∃ q ∈ qs, ∃ q' ∈ qs, q ≠ q'

/-- **One more registration is remembered.**

**Proof sketch.** A first registration names the only class. The class that was registered before
may be registered again; another one makes a collision, and a collision stays one. -/
theorem Agrees.register {qs : List String} {b : Option NameBinding} (h : Agrees qs b) (q : String) :
    Agrees (qs ++ [q]) (some (NameBinding.register .reject q b)) := by
  cases b with
  | none =>
    obtain rfl : qs = [] := h
    exact ⟨List.mem_cons_self, fun q' hq' => List.mem_singleton.1 hq'⟩
  | some b =>
    have hlast : q ∈ qs ++ [q] := List.mem_append_right qs List.mem_cons_self
    cases b with
    | unique other =>
      obtain ⟨hmem, hall⟩ := h
      by_cases heq : other = q
      · subst heq
        simp only [NameBinding.register, if_true]
        refine ⟨hlast, fun q' hq' => ?_⟩
        rcases List.mem_append.1 hq' with hq' | hq'
        · exact hall q' hq'
        · exact List.mem_singleton.1 hq'
      · simp only [NameBinding.register, if_neg heq]
        exact ⟨other, List.mem_append_left [q] hmem, q, hlast, heq⟩
    | ambiguous =>
      obtain ⟨q₁, h₁, q₂, h₂, hne⟩ := h
      exact ⟨q₁, List.mem_append_left [q] h₁, q₂, List.mem_append_left [q] h₂, hne⟩

/-- What is remembered tells whether all registrations name one class, and which. -/
theorem Agrees.bind_class?_eq_some_iff {qs : List String} {b : Option NameBinding}
    (h : Agrees qs b) : b.bind class? = some q ↔ q ∈ qs ∧ ∀ q' ∈ qs, q' = q := by
  cases b with
  | none =>
    obtain rfl : qs = [] := h
    simp
  | some b =>
    cases b with
    | unique other =>
      obtain ⟨hmem, hall⟩ := h
      simp only [Option.bind_some, class?, Option.some.injEq]
      constructor
      · rintro rfl
        exact ⟨hmem, hall⟩
      · exact fun ⟨hq, hall'⟩ => hall' other hmem
    | ambiguous =>
      obtain ⟨q₁, h₁, q₂, h₂, hne⟩ := h
      simp only [Option.bind_some, class?, reduceCtorEq, false_iff]
      exact fun ⟨_, hall⟩ => hne ((hall q₁ h₁).trans (hall q₂ h₂).symm)

end NameBinding

/-- **Where collisions are refused, the table remembers all registrations of a name.** -/
theorem agrees_simpleNameTable (entries : List (String × String)) (name : String) :
    NameBinding.Agrees (registrations entries name)
      ((simpleNameTable .reject entries).get? name) := by
  induction entries using List.reverseRecOn with
  | nil => exact rfl
  | append_singleton entries e ih =>
    rw [get?_simpleNameTable_concat, registrations_concat]
    split
    · exact ih.register e.2
    · exact ih

/-! ## Resolvers -/

namespace OwnerResolver

/-- A name with a dot is no simple name. -/
theorem simple_eq_none (hdot : '.' ∈ name.toList) : simple policy entries name = none :=
  if_pos hdot

theorem simple_eq_bind (hdot : '.' ∉ name.toList) :
    simple policy entries name =
      ((simpleNameTable policy entries).get? name).bind NameBinding.class? :=
  if_neg hdot

/-- Where the last registration counts, a simple name resolves to the class registered last. -/
theorem simple_lastRegistered (hdot : '.' ∉ name.toList) :
    simple .lastRegistered entries name = (registrations entries name).getLast? := by
  rw [simple_eq_bind hdot, get?_simpleNameTable_lastRegistered]
  cases (registrations entries name).getLast? <;> rfl

/-- **Where collisions are refused, a simple name resolves to a class exactly if it is registered
and all its registrations name this class.** -/
theorem simple_reject_eq_some_iff (hdot : '.' ∉ name.toList) :
    simple .reject entries name = some q ↔
      q ∈ registrations entries name ∧ ∀ q' ∈ registrations entries name, q' = q := by
  rw [simple_eq_bind hdot]
  exact (agrees_simpleNameTable entries name).bind_class?_eq_some_iff

/-- Whatever a simple name resolves to was registered under it. -/
theorem mem_of_simple_eq_some (h : simple policy entries name = some q) : (name, q) ∈ entries := by
  have hdot : '.' ∉ name.toList := by
    intro hdot
    rw [simple_eq_none hdot] at h
    cases h
  rw [← mem_registrations]
  cases policy with
  | lastRegistered =>
    rw [simple_lastRegistered hdot] at h
    exact List.mem_of_getLast? h
  | reject => exact ((simple_reject_eq_some_iff hdot).1 h).1

/-- What resolves where collisions are refused resolves to the same where the last registration
counts. -/
theorem simple_lastRegistered_of_reject (h : simple .reject entries name = some q) :
    simple .lastRegistered entries name = some q := by
  have hdot : '.' ∉ name.toList := by
    intro hdot
    rw [simple_eq_none hdot] at h
    cases h
  obtain ⟨hmem, hall⟩ := (simple_reject_eq_some_iff hdot).1 h
  have hne := List.ne_nil_of_mem hmem
  rw [simple_lastRegistered hdot, List.getLast?_eq_some_getLast hne,
    hall _ (List.getLast_mem hne)]

/-- Where collisions are refused, the order of the registrations does not matter. -/
theorem simple_reject_perm {entries' : List (String × String)} (h : entries'.Perm entries) :
    simple .reject entries' name = simple .reject entries name := by
  by_cases hdot : '.' ∈ name.toList
  · rw [simple_eq_none hdot, simple_eq_none hdot]
  · refine Option.ext fun q => ?_
    simp only [simple_reject_eq_some_iff hdot, mem_registrations, h.mem_iff]

variable {classes : List ClassRecord}

/-- **The names of classes are resolved to themselves, and any other name is read as a simple
name.** -/
theorem ofClasses_apply (policy : CollisionPolicy) (classes : List ClassRecord) (name : String) :
    ofClasses policy classes name =
      if name ∈ classes.map ClassRecord.resolvedName then some name
      else simple policy (classes.map fun c => (c.lookupName, c.resolvedName)) name := by
  have hmem : name ∈ (ModelIndex.ofClasses classes).classes.toList ↔
      name ∈ classes.map ClassRecord.resolvedName :=
    OrderedSet.mem_ofList
  simp only [ofClasses, ofIndex, exact, hmem]
  split
  · rfl
  · exact Option.none_or

/-- Owners are classes of the model. -/
theorem mem_of_ofClasses_eq_some (h : ofClasses policy classes name = some q) :
    q ∈ classes.map ClassRecord.resolvedName := by
  rw [ofClasses_apply] at h
  split at h
  next hname => exact Option.some.inj h ▸ hname
  next =>
    obtain ⟨c, hc, heq⟩ := List.mem_map.1 (mem_of_simple_eq_some h)
    exact List.mem_map.2 ⟨c, hc, (Prod.mk.inj heq).2⟩

end OwnerResolver

open OwnerResolver

/-- **What simple names and owners resolve to.** A name without a dot resolves to the class that
was registered under it last, or, where collisions are refused, to the class that all its
registrations name, in whatever order they were made; a name with a dot is no simple name. In a
model, the name of a class is resolved to itself and any other name as a simple name, always to a
class of the model; and refusing collisions only ever takes answers away.

**Proof sketch.** Under either policy the table is right about a name after each registration. If
all registrations of a name name one class, so does the last one. -/
theorem resolution_byPolicy :
    (∀ entries name, '.' ∉ name.toList →
      simple .lastRegistered entries name = (registrations entries name).getLast? ∧
        ∀ q, simple .reject entries name = some q ↔ registrations entries name ≠ [] ∧
          ∀ q' ∈ registrations entries name, q' = q) ∧
    (∀ entries entries' name, entries'.Perm entries →
      simple .reject entries' name = simple .reject entries name) ∧
    (∀ policy entries name, '.' ∈ name.toList → simple policy entries name = none) ∧
    ∀ classes name,
      (∀ policy, ofClasses policy classes name =
        if name ∈ classes.map ClassRecord.resolvedName then some name
        else simple policy (classes.map fun c => (c.lookupName, c.resolvedName)) name) ∧
      (∀ policy q, ofClasses policy classes name = some q →
        q ∈ classes.map ClassRecord.resolvedName) ∧
      ∀ q, ofClasses .reject classes name = some q →
        ofClasses .lastRegistered classes name = some q := by
  refine ⟨fun entries name hdot => ⟨simple_lastRegistered hdot, fun q => ?_⟩,
    fun entries entries' name h => simple_reject_perm h,
    fun policy entries name hdot => simple_eq_none hdot,
    fun classes name => ⟨fun policy => ofClasses_apply policy classes name,
      fun policy q h => mem_of_ofClasses_eq_some h, fun q h => ?_⟩⟩
  · rw [simple_reject_eq_some_iff hdot]
    constructor
    · exact fun ⟨hq, hall⟩ => ⟨List.ne_nil_of_mem hq, hall⟩
    · rintro ⟨hne, hall⟩
      obtain ⟨q', hq'⟩ := List.exists_mem_of_ne_nil _ hne
      exact ⟨hall q' hq' ▸ hq', hall⟩
  · rw [ofClasses_apply] at h ⊢
    split
    next hname => rwa [if_pos hname] at h
    next hname =>
      rw [if_neg hname] at h
      exact simple_lastRegistered_of_reject h

/-- Registrations of a name that collides and of one that is only repeated. -/
def collidingNames : List (String × String) :=
  [("Node", "ast.Node"), ("Edge", "graph.Edge"), ("Node", "graph.Node"), ("Edge", "graph.Edge"),
    ("Node", "ast.Node")]

/-- A class that is registered again after a collision does not undo it, unless the last
registration counts. -/
theorem resolution_byPolicy_collidingNames :
    let model := [ClassRecord.ofQualifiedName "ast.Node", .ofQualifiedName "graph.Edge"]
    ('.' ∉ "Node".toList ∧ simple .lastRegistered collidingNames "Node" = some "ast.Node" ∧
      ∀ q, simple .reject collidingNames "Node" ≠ some q) ∧
    ('.' ∉ "Edge".toList ∧ simple .reject collidingNames "Edge" = some "graph.Edge") ∧
    (collidingNames.reverse.Perm collidingNames ∧
      simple .reject collidingNames.reverse "Edge" = some "graph.Edge") ∧
    ('.' ∈ "ast.Node".toList ∧ simple .lastRegistered collidingNames "ast.Node" = none) ∧
    ofClasses .reject model "Edge" = some "graph.Edge" ∧
      "graph.Edge" ∈ model.map ClassRecord.resolvedName ∧
      ofClasses .lastRegistered model "Edge" = some "graph.Edge" := by
  intro model
  have hnode : '.' ∉ "Node".toList := by decide
  have hedge : '.' ∉ "Edge".toList := by decide
  have hdotted : '.' ∈ "ast.Node".toList := by decide
  have hperm : collidingNames.reverse.Perm collidingNames := List.reverse_perm _
  have hmodel : ofClasses .reject model "Edge" = some "graph.Edge" := by decide +kernel
  obtain ⟨hsimple, horder, hnone, hclasses⟩ := resolution_byPolicy
  obtain ⟨hlast, hreject⟩ := hsimple collidingNames "Node" hnode
  obtain ⟨-, hreject'⟩ := hsimple collidingNames "Edge" hedge
  obtain ⟨-, hmem, hkeep⟩ := hclasses model "Edge"
  have hagree : simple .reject collidingNames "Edge" = some "graph.Edge" :=
    (hreject' _).2 (by decide)
  refine ⟨⟨hnode, hlast.trans (by decide), fun q hq => ?_⟩, ⟨hedge, hagree⟩,
    ⟨hperm, (horder _ _ _ hperm).trans hagree⟩, ⟨hdotted, hnone _ _ _ hdotted⟩, hmodel,
    hmem _ _ hmodel, hkeep _ hmodel⟩
  obtain ⟨-, hall⟩ := (hreject q).1 hq
  have hast := hall "ast.Node" (by decide)
  have hgraph := hall "graph.Node" (by decide)
  exact absurd (hast.trans hgraph.symm) (by decide)

end ModuleRecovery
