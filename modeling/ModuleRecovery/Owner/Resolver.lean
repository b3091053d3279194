import ModuleRecovery.Model.Index
import ModuleRecovery.Owner.Candidate

set_option relaxedAutoImplicit false
set_option autoImplicit false

/-!
# Resolving owners

A resolver maps the name of an owner, as found in a label, to a class of the model. The
resolver of a model accepts the exact resolved names first, and reads a name without a dot
as a simple name next. Two classes may share a simple name; a collision policy says what
such a name means.

## Main definitions

* `ModuleRecovery.OwnerResolver` — a resolver.
* `ModuleRecovery.CollisionPolicy` — the meaning of a shared simple name.
* `ModuleRecovery.OwnerResolver.ofClasses` — the resolver of a model.
* `ModuleRecovery.resolveOwner?` — the class that owns a labelled method.
-/

namespace ModuleRecovery

/-- A map from the names of owners to the names of classes. -/
abbrev OwnerResolver :=
  String → Option String

/-- What a simple name means when several classes have it. -/
inductive CollisionPolicy where
  /-- The class registered last. -/
  | lastRegistered
  /-- No class at all. -/
  | reject
deriving DecidableEq

instance : Inhabited CollisionPolicy := ⟨.lastRegistered⟩

/-- What a simple name stands for. -/
inductive NameBinding where
  /-- A single class. -/
  | unique (qualified : String)
  /-- Several classes, and so none of them. -/
  | ambiguous
deriving DecidableEq

namespace NameBinding

/-- The class a simple name stands for. -/
def class? : NameBinding → Option String
  | unique qualified => some qualified
  | ambiguous => none

/-- What a simple name stands for after one more class was registered under it. -/
def register (policy : CollisionPolicy) (qualified : String) : Option NameBinding → NameBinding
  | none => unique qualified
  | some earlier =>
    match policy, earlier with
    | .lastRegistered, _ => unique qualified
    | .reject, ambiguous => ambiguous
    | .reject, unique other => if other = qualified then unique qualified else ambiguous

end NameBinding

/-- The table of the simple names in a list of pairs of simple and resolved names. -/
def simpleNameTable (policy : CollisionPolicy) (entries : List (String × String)) :
    OrderedMap String NameBinding :=
  entries.foldl (fun table e => table.upsert e.1 (NameBinding.register policy e.2)) ∅

namespace OwnerResolver

/-- Accept the given names and nothing else. -/
def exact (names : List String) : OwnerResolver :=
  fun candidate => if candidate ∈ names then some candidate else none

/-- Read names without a dot as simple names. -/
def simple (policy : CollisionPolicy) (entries : List (String × String)) : OwnerResolver :=
  let table := simpleNameTable policy entries
  fun candidate =>
    if '.' ∈ candidate.toList then none else (table.get? candidate).bind NameBinding.class?

/-- Resolve nothing: every owner is outside the model. -/
def unresolved : OwnerResolver :=
  fun _ => none

/-- The resolver of an index: exact names first, simple names next. -/
def ofIndex (policy : CollisionPolicy) (index : ModelIndex) : OwnerResolver :=
  let bySimpleName := simple policy index.simpleNames
  fun candidate => (exact index.classes.toList candidate).or (bySimpleName candidate)

/-- The resolver of a list of class records. -/
def ofClasses (policy : CollisionPolicy) (classes : List ClassRecord) : OwnerResolver :=
  ofIndex policy (.ofClasses classes)

end OwnerResolver

/-- The class that owns the method with the given label. -/
def resolveOwner? (resolver : OwnerResolver) (label : String) : Option String :=
  (ownerCandidate? label).bind resolver

end ModuleRecovery
