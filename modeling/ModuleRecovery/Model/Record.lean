import ModuleRecovery.Text.Cut

set_option relaxedAutoImplicit false
set_option autoImplicit false

/-!
# Extracted model records

An extractor describes a code base as a list of classes, each with its methods and the
calls made in them. It resolves names as well as it can, so any name may be missing: a
missing text is empty, and a missing optional text is `none`.

## Main definitions

* `ModuleRecovery.ClassRecord`, `ModuleRecovery.MethodRecord`, `ModuleRecovery.CallRecord` —
  the three kinds of record.
-/

namespace ModuleRecovery

/-- A call inside the body of a method. -/
structure CallRecord where
  /-- The name of the method called. -/
  name : String := ""
  /-- The class that declares the method called. -/
  declaringType : Option String := none
  /-- The static type of the object the method is called on. -/
  receiverType : Option String := none
  /-- The binding key of the method called. -/
  key : Option String := none
  /-- The qualified signature of the method called. -/
  signature : Option String := none
deriving DecidableEq

/-- A method or a constructor of a class. -/
structure MethodRecord where
  /-- The simple name. -/
  name : String := ""
  /-- The names of the parameter types, in order. -/
  parameterTypes : List String := []
  /-- The binding key, unique in the whole code base. -/
  key : Option String := none
  /-- The calls in the body, in order. -/
  calls : List CallRecord := []
deriving DecidableEq

/-- A class, an interface or an enumeration. -/
structure ClassRecord where
  /-- The package, without the class. -/
  packageName : String := ""
  /-- The name inside the package. -/
  simpleName : String := ""
  /-- The full name; empty when the extractor could not resolve the type. -/
  qualifiedName : String := ""
  /-- The methods and constructors, in order. -/
  methods : List MethodRecord := []
deriving DecidableEq

namespace CallRecord

/-- A call of the method `name` on an object of the class that declares it. -/
def toMember (declaringType name : String) : CallRecord :=
  { name, declaringType := some declaringType, receiverType := some declaringType }

end CallRecord

namespace MethodRecord

/-- A method without parameters and calls. -/
def named (name : String) : MethodRecord :=
  { name }

/-- A constructor without parameters and calls. -/
def constructor : MethodRecord :=
  named "<init>"

/-- The method with one more call at its end. -/
def withCall (m : MethodRecord) (d : CallRecord) : MethodRecord :=
  { m with calls := m.calls ++ [d] }

end MethodRecord

namespace ClassRecord

/-- The class with the given full name; the package is what stands before the last dot. -/
def ofQualifiedName (qualifiedName : String) : ClassRecord :=
  match cutLast '.' qualifiedName.toList with
  | some (package, simple) =>
    { packageName := String.ofList package, simpleName := String.ofList simple, qualifiedName }
  | none => { simpleName := qualifiedName, qualifiedName }

/-- The class with one more method at its end. -/
def withMethod (c : ClassRecord) (m : MethodRecord) : ClassRecord :=
  { c with methods := c.methods ++ [m] }

end ClassRecord

end ModuleRecovery
