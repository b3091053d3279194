import ModuleRecovery.Json.Reader
import ModuleRecovery.Model.Record

set_option relaxedAutoImplicit false
set_option autoImplicit false

/-!
# Model documents

A model document is a list of class records, or an object whose member `classes` is that
list. Every record is an object, in which members may come in any order and unknown members
are ignored, or the list of its fields in their fixed order. Fields may be left out, in a
list only at the end.

## Main definitions

* `ModuleRecovery.recordFields` — the fields of a record in either form.
* `ModuleRecovery.decodeModel` — the class records of a value.
* `ModuleRecovery.readModel` — the class records of a text.
-/

namespace ModuleRecovery

/-- The fields of a record with their names. A list has no more items than the record has
fields, and an object names no field twice. -/
def recordFields (names : List String) : Json → Except JsonFault (List (String × Json))
  | .array items =>
    if items.length ≤ names.length then .ok (names.zip items) else .error .mismatch
  | .object members =>
    let known := members.filter (·.1 ∈ names)
    if (known.map Prod.fst).Nodup then .ok known else .error .mismatch
  | _ => .error .mismatch

/-- Decode a field, which has a default value. -/
def decodeField {α : Type} (fields : List (String × Json)) (name : String) (default : α)
    (decode : Json → Except JsonFault α) : Except JsonFault α :=
  match fields.find? (·.1 = name) with
  | some (_, v) => decode v
  | none => .ok default

/-- Decode a string. -/
def decodeString : Json → Except JsonFault String
  | .string s => .ok s
  | _ => .error .mismatch

/-- Decode a string that may be missing. -/
def decodeOptionalString : Json → Except JsonFault (Option String)
  | .null => .ok none
  | .string s => .ok (some s)
  | _ => .error .mismatch

/-- Decode a list. -/
def decodeList {α : Type} (decode : Json → Except JsonFault α) :
    Json → Except JsonFault (List α)
  | .array items => items.mapM decode
  | _ => .error .mismatch

/-- The fields of a call record, in order. -/
def callFields : List String :=
  ["name", "declaring_type", "receiver_type", "key", "signature"]

/-- Decode a call record. -/
def decodeCall (v : Json) : Except JsonFault CallRecord := do
  let fields ← recordFields callFields v
  return {
    name := ← decodeField fields "name" "" decodeString
    declaringType := ← decodeField fields "declaring_type" none decodeOptionalString
    receiverType := ← decodeField fields "receiver_type" none decodeOptionalString
    key := ← decodeField fields "key" none decodeOptionalString
    signature := ← decodeField fields "signature" none decodeOptionalString }

/-- The fields of a method record, in order. -/
def methodFields : List String :=
  ["name", "parameter_types", "key", "calls"]

/-- Decode a method record. -/
def decodeMethod (v : Json) : Except JsonFault MethodRecord := do
  let fields ← recordFields methodFields v
  return {
    name := ← decodeField fields "name" "" decodeString
    parameterTypes := ← decodeField fields "parameter_types" [] (decodeList decodeString)
    key := ← decodeField fields "key" none decodeOptionalString
    calls := ← decodeField fields "calls" [] (decodeList decodeCall) }

/-- The fields of a class record, in order. -/
def classFields : List String :=
  ["package_name", "simple_name", "qualified_name", "methods"]

/-- Decode a class record. -/
def decodeClass (v : Json) : Except JsonFault ClassRecord := do
  let fields ← recordFields classFields v
  return {
    packageName := ← decodeField fields "package_name" "" decodeString
    simpleName := ← decodeField fields "simple_name" "" decodeString
    qualifiedName := ← decodeField fields "qualified_name" "" decodeString
    methods := ← decodeField fields "methods" [] (decodeList decodeMethod) }

/-- Decode a model: a list of class records, or an object with one member `classes`. -/
def decodeModel : Json → Except JsonFault (List ClassRecord)
  | .object members =>
    match members.filter (·.1 = "classes") with
    | [(_, v)] => decodeList decodeClass v
    | _ => .error .mismatch
  | v => decodeList decodeClass v

/-- Read the class records of a text, behind which nothing but blanks may follow. -/
def readModel (text : String) : Except JsonFault (List ClassRecord) := do
  let (v, rest) ← readJson jsonDepth text.toList
  let classes ← decodeModel v
  expectEnd rest
  return classes

end ModuleRecovery
