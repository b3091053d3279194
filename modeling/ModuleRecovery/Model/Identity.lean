import ModuleRecovery.Model.Record

set_option relaxedAutoImplicit false
set_option autoImplicit false

/-!
# Identities of classes, methods and calls

Every analysis identifies a class by its resolved name, a method by its key and a call by
the key of its callee. Each of them falls back on what the extractor did find. An empty
optional text counts as missing, and so does a key that says its binding failed.

## Main definitions

* `ModuleRecovery.ClassRecord.resolvedName`, `ModuleRecovery.ClassRecord.lookupName` — the
  full name and the simple name of a class.
* `ModuleRecovery.MethodNode.ofMethod` — the key and the label of a method.
* `ModuleRecovery.CallRecord.calleeKey?` — the key of the method called.
* `ModuleRecovery.CallRecord.targetType?` — the class the call lands on.
* `ModuleRecovery.CallRecord.externalSignature` — a name for a callee outside the model.
-/

namespace ModuleRecovery

/-- What a key starts with when its binding failed. -/
def failedBindingMark : String :=
  "NO_BINDING:"

/-- An optional text, where an empty one counts as missing. -/
def present? (text : Option String) : Option String :=
  text.filter (· ≠ "")

/-- An optional key, where an empty one and one whose binding failed count as missing. -/
def bound? (key : Option String) : Option String :=
  (present? key).filter (!startsWith failedBindingMark ·)

namespace ClassRecord

/-- The full name, else the package and the simple name, else the simple name alone. -/
def resolvedName (c : ClassRecord) : String :=
  if c.qualifiedName ≠ "" then c.qualifiedName
  else if c.packageName ≠ "" then c.packageName ++ "." ++ c.simpleName
  else c.simpleName

/-- The simple name, else the part of the resolved name after its last dot. -/
def lookupName (c : ClassRecord) : String :=
  if c.simpleName ≠ "" then c.simpleName
  else match cutLast '.' c.resolvedName.toList with
    | some (_, simple) => String.ofList simple
    | none => c.resolvedName

end ClassRecord

namespace MethodRecord

/-- The binding key, if the method was bound. -/
def boundKey? (m : MethodRecord) : Option String :=
  bound? m.key

/-- The name with the parameter types, as in `sum(int,int)`. -/
def simpleSignature (m : MethodRecord) : String :=
  m.name ++ "(" ++ String.intercalate "," m.parameterTypes ++ ")"

end MethodRecord

/-- A method as a node of the call graph. -/
structure MethodNode where
  /-- What identifies the method. -/
  key : String
  /-- How the method is displayed. -/
  label : String
deriving DecidableEq

/-- The node of the method `m` of the class named `owner`: its binding key, else
`owner#signature`; displayed as `owner.signature`. -/
def MethodNode.ofMethod (owner : String) (m : MethodRecord) : MethodNode where
  key := m.boundKey?.getD (owner ++ "#" ++ m.simpleSignature)
  label := owner ++ "." ++ m.simpleSignature

namespace CallRecord

/-- The binding key of the callee, if it was bound. -/
def boundKey? (d : CallRecord) : Option String :=
  bound? d.key

/-- The signature of the callee, if there is one. -/
def signature? (d : CallRecord) : Option String :=
  present? d.signature

/-- The class that declares the callee, if it is known. -/
def declaringType? (d : CallRecord) : Option String :=
  present? d.declaringType

/-- The key of the callee: its binding key, else its signature, else `type.name(?)` from the
declaring type and a name. A call without any of them is inert. -/
def calleeKey? (d : CallRecord) : Option String :=
  match d.boundKey? with
  | some key => some key
  | none =>
    match d.signature? with
    | some signature => some signature
    | none =>
      match d.declaringType? with
      | some type => if d.name ≠ "" then some (type ++ "." ++ d.name ++ "(?)") else none
      | none => none

/-- The class the call lands on: the declaring type, else the receiver's type. -/
def targetType? (d : CallRecord) : Option String :=
  d.declaringType?.or (present? d.receiverType)

/-- A name for a callee outside the model: its signature, else `type.name(...)`, else the
bare name. -/
def externalSignature (d : CallRecord) : String :=
  match d.signature? with
  | some signature => signature
  | none =>
    match d.targetType? with
    | some type => type ++ "." ++ d.name ++ "(...)"
    | none => d.name

end CallRecord

end ModuleRecovery
