import ModuleRecovery.Json.Reader
import ModuleRecovery.Report.Document

set_option relaxedAutoImplicit false
set_option autoImplicit false

/-!
# Reading report documents

A report document is read from front to back against what is expected at each place, and the
first thing that is wrong decides the fault. A record is an object, in which unknown members
are skipped, or the list of its fields in their fixed order. The dendrogram is read as a
value first, because its member `kind`, which may come last, decides about the others.

## Main definitions

* `ModuleRecovery.RecordField` — a field of a record, with how to read it.
* `ModuleRecovery.readRecord` — read a record in either form.
* `ModuleRecovery.decodeTree` — the dendrogram of a value.
* `ModuleRecovery.readReport` — the report document of a text.
-/

namespace ModuleRecovery

/-- Stop with a fault. -/
def failWith {α : Type} (fault : JsonFault) : JsonReader α := fun _ =>
  .error fault

/-- The first character behind the blanks, which are taken off. -/
def nextChar : JsonReader (Option Char) := fun s =>
  let rest := dropJsonBlanks s
  .ok (rest.head?, rest)

/-- Take one character off. -/
def dropChar : JsonReader Unit := fun s =>
  .ok ((), s.drop 1)

/-- Take off the blanks and the given character behind them. -/
def expectChar (c : Char) : JsonReader Unit := do
  if (← nextChar) = some c then dropChar else failWith .malformed

/-- Refuse the value at the front of a text. A word, a number or a string that breaks off is
malformed; of a list and an object only the bracket is looked at. -/
def refuse {α : Type} : JsonReader α := fun s =>
  match dropJsonBlanks s with
  | [] => .error .malformed
  | c :: rest =>
    if c = '[' || c = '{' then .error .mismatch
    else match readValue false 1 0 (c :: rest) with
      | .ok _ => .error .mismatch
      | .error fault => .error fault

/-- Read a string. -/
def readText : JsonReader String := fun s =>
  match dropJsonBlanks s with
  | '"' :: rest => (readString false rest).map fun p => (String.ofList p.1, p.2)
  | rest => refuse rest

/-- Read a number. -/
def readReal : JsonReader Float := fun s =>
  let rest := dropJsonBlanks s
  if rest.head?.any fun c => c = '-' || c.isDigit then
    (readNumber false rest).map fun p => (p.1.toFloat, p.2)
  else refuse rest

/-- Read a truth value. -/
def readBool : JsonReader Bool := fun s =>
  match dropJsonBlanks s with
  | 't' :: rest => (expectWord ['r', 'u', 'e'] rest).map (true, ·)
  | 'f' :: rest => (expectWord ['a', 'l', 's', 'e'] rest).map (false, ·)
  | rest => refuse rest

/-- Read a value that may be missing. -/
def readOptional {α : Type} (item : JsonReader α) : JsonReader (Option α) := fun s =>
  match dropJsonBlanks s with
  | 'n' :: rest => (expectWord ['u', 'l', 'l'] rest).map (none, ·)
  | rest => (item rest).map fun p => (some p.1, p.2)

/-- Go on to the next item of a list or the next member of an object, if there is one.
Between two of them stands a comma. -/
def nextPart (isFirst : Bool) (close : Char) : JsonReader Bool := do
  match ← nextChar with
  | none => failWith .malformed
  | some c =>
    if c = close then return false
    else if isFirst then return true
    else if c = ',' then
      dropChar
      match ← nextChar with
      | none => failWith .malformed
      | some d => if d = close then failWith .malformed else return true
    else failWith .malformed

/-- Read the items of a list up to its closing bracket, at most `bound` of them. -/
def readItemsOf {α : Type} (item : JsonReader α) : Nat → Bool → JsonReader (List α)
  | 0, _ => failWith .malformed
  | bound + 1, isFirst => do
    if ← nextPart isFirst ']' then
      let head ← item
      let tail ← readItemsOf item bound false
      return head :: tail
    else return []

/-- Enter a list or an object, and check that it is not nested too deep. -/
def enter (room : Nat) : JsonReader Unit := do
  dropChar
  if room = 0 then failWith .malformed

/-- How many characters are left. -/
def charsLeft : JsonReader Nat := fun s =>
  .ok (s.length, s)

/-- Read a list; `item` reads what is nested one level deeper. -/
def readListOf {α : Type} (item : Nat → JsonReader α) (room : Nat) : JsonReader (List α) := do
  if (← nextChar) = some '[' then
    enter room
    let items ← readItemsOf (item (room - 1)) ((← charsLeft) + 1) true
    expectChar ']'
    return items
  else refuse

/-- A field of a record of which the parts read so far are kept in `σ`. -/
structure RecordField (σ : Type) where
  /-- The name of the field. -/
  name : String
  /-- Whether the field was read. -/
  isRead : σ → Bool
  /-- Read the field, which may be nested that deep. -/
  read : Nat → σ → JsonReader σ

/-- A field with the place it is kept in. -/
def RecordField.of {σ α : Type} (name : String) (get : σ → Option α)
    (set : σ → Option α → σ) (read : Nat → JsonReader α) : RecordField σ where
  name
  isRead parts := (get parts).isSome
  read room parts := return set parts (some (← read room))

/-- Read the fields of a record that is written as a list. -/
def readPositional {σ : Type} (room : Nat) : List (RecordField σ) → Bool → σ → JsonReader σ
  | [], _, parts => return parts
  | field :: fields, isFirst, parts => do
    if ← nextPart isFirst ']' then
      readPositional room fields false (← field.read room parts)
    else failWith .mismatch

/-- Read a member name and the opening quote before it. -/
def readName : JsonReader String := do
  if (← nextChar) = some '"' then readText else failWith .malformed

/-- Read the members of an object that is a record, at most `bound` of them. -/
def readNamed {σ : Type} (fields : List (RecordField σ)) (room : Nat) :
    Nat → Bool → σ → JsonReader σ
  | 0, _, _ => failWith .malformed
  | bound + 1, isFirst, parts => do
    if ← nextPart isFirst '}' then
      let name ← readName
      match fields.find? (·.name = name) with
      | none =>
        expectChar ':'
        skipJson
        readNamed fields room bound false parts
      | some field =>
        if field.isRead parts then failWith .mismatch
        else
          expectChar ':'
          readNamed fields room bound false (← field.read room parts)
    else return parts

/-- Read a record in either form. The parts have to make up a complete record. -/
def readRecord {σ α : Type} (fields : List (RecordField σ)) (start : σ)
    (complete : σ → Option α) (room : Nat) : JsonReader α := do
  match ← nextChar with
  | some '[' =>
    enter room
    let parts ← readPositional (room - 1) fields true start
    finish parts ']'
  | some '{' =>
    enter room
    let parts ← readNamed fields (room - 1) ((← charsLeft) + 1) true start
    finish parts '}'
  | _ => refuse
where
  finish (parts : σ) (close : Char) : JsonReader α := do
    match complete parts with
    | none => failWith .mismatch
    | some record =>
      expectChar close
      return record

/-- Read a list of strings. -/
def readTexts (room : Nat) : JsonReader (List String) :=
  readListOf (fun _ => readText) room

/-- The parts of a record with two fields. -/
structure TwoParts (α β : Type) where
  /-- The first field. -/
  first : Option α := none
  /-- The second field. -/
  second : Option β := none

/-- Read a record with two fields, both of which are needed. -/
def readTwo {α β : Type} (firstName : String) (first : Nat → JsonReader α)
    (secondName : String) (second : Nat → JsonReader β) (room : Nat) : JsonReader (α × β) :=
  readRecord
    [.of firstName TwoParts.first (fun parts a => { parts with first := a }) first,
     .of secondName TwoParts.second (fun parts b => { parts with second := b }) second]
    {} (fun parts => return (← parts.first, ← parts.second)) room

/-- Read a node of a call graph. -/
def readNode (room : Nat) : JsonReader NodeEntry :=
  (fun p => ⟨p.1, p.2⟩) <$> readTwo "id" (fun _ => readText) "external" (fun _ => readBool) room

/-- Read an edge of a call graph. -/
def readEdge (room : Nat) : JsonReader (String × String) :=
  readTwo "from" (fun _ => readText) "to" (fun _ => readText) room

/-- Read a call graph. -/
def readGraph (room : Nat) : JsonReader GraphDocument :=
  (fun p => ⟨p.1, p.2⟩) <$> readTwo "nodes" (readListOf readNode) "edges" (readListOf readEdge) room

/-- The parts of an edge of a coupling graph. -/
structure EdgeParts where
  /-- One end. -/
  first : Option String := none
  /-- The other end. -/
  second : Option String := none
  /-- The weight. -/
  weight : Option Float := none

/-- Read an edge of a coupling graph. -/
def readWeightedEdge (room : Nat) : JsonReader (WeightedEdge String) :=
  readRecord
    [.of "a" EdgeParts.first (fun parts a => { parts with first := a }) fun _ => readText,
     .of "b" EdgeParts.second (fun parts b => { parts with second := b }) fun _ => readText,
     .of "weight" EdgeParts.weight (fun parts w => { parts with weight := w }) fun _ => readReal]
    {} (fun parts => return ⟨← parts.first, ← parts.second, ← parts.weight⟩) room

/-- Read a coupling graph. -/
def readCoupling (room : Nat) : JsonReader CouplingDocument :=
  (fun p => ⟨p.1, p.2⟩) <$> readTwo "nodes" readTexts "edges" (readListOf readWeightedEdge) room

/-- Read a module. -/
def readModule (room : Nat) : JsonReader (Module String) :=
  (fun p => ⟨p.1, p.2⟩) <$>
    readTwo "members" readTexts "average_coupling" (fun _ => readReal) room

/-- Read a partition. -/
def readPartition (room : Nat) : JsonReader (Partition String) :=
  (fun p => ⟨p.2, p.1⟩) <$>
    readTwo "feasible" (fun _ => readBool) "modules" (readListOf readModule) room

/-- The two kinds of node of a dendrogram. -/
inductive NodeKind where
  /-- A single item. -/
  | leaf
  /-- A merge. -/
  | internal
deriving DecidableEq

namespace NodeKind

/-- The kind of the given name. -/
def ofName? (s : String) : Option NodeKind :=
  if s = "leaf" then some leaf else if s = "internal" then some internal else none

/-- The kind a value stands for: its name, or its position among the kinds. -/
def ofJson? : Json → Option NodeKind
  | .string s => ofName? s
  | .number (.natural 0) => some leaf
  | .number (.natural 1) => some internal
  | _ => none

/-- The fields of a node of a kind, in order. -/
def fields : NodeKind → List String
  | leaf => ["class"]
  | internal => ["height", "members", "left", "right"]

end NodeKind

/-- A node of a dendrogram, split into its kind and the fields it is made of. -/
def splitNode? : Json → Option (NodeKind × Json)
  | .array (kind :: items) => (NodeKind.ofJson? kind).map (·, .array items)
  | .object members =>
    match members.filter (·.1 = "kind") with
    | [(_, kind)] =>
      (NodeKind.ofJson? kind).map (·, .object (members.filter (·.1 ≠ "kind")))
    | _ => none
  | _ => none

/-- A field of a record that is complete. -/
def neededField? (fields : List (String × Json)) (name : String) : Option Json :=
  (fields.find? (·.1 = name)).map Prod.snd

/-- The fields of a node with their names. -/
def nodeFields? (kind : NodeKind) : Json → Option (List (String × Json))
  | .array items =>
    if items.length ≤ kind.fields.length then some (kind.fields.zip items) else none
  | .object members =>
    let known := members.filter (·.1 ∈ kind.fields)
    if (known.map Prod.fst).Nodup then some known else none
  | _ => none

/-- The string a value stands for. -/
def stringOf? : Json → Option String
  | .string s => some s
  | _ => none

/-- The number a value stands for. -/
def realOf? : Json → Option Float
  | .number n => some n.toFloat
  | _ => none

/-- The list of strings a value stands for. -/
def stringsOf? : Json → Option (List String)
  | .array items => items.mapM stringOf?
  | _ => none

/-- The dendrogram of a node of the given kind, where the trees below are decoded by
`below`. -/
def decodeNode (below : Json → Option (Dendrogram String)) (kind : NodeKind) (body : Json) :
    Option (Dendrogram String) := do
  let fields ← nodeFields? kind body
  match kind with
  | .leaf => return .leaf (← stringOf? (← neededField? fields "class"))
  | .internal =>
    let height ← realOf? (← neededField? fields "height")
    let members ← stringsOf? (← neededField? fields "members")
    let left ← below (← neededField? fields "left")
    let right ← below (← neededField? fields "right")
    return .internal left right height members

/-- The dendrogram of a value that is nested at most `depth` deep. -/
def decodeTree : Nat → Json → Option (Dendrogram String)
  | 0, _ => none
  | depth + 1, v => do
    let (kind, body) ← splitNode? v
    decodeNode (decodeTree depth) kind body

/-- Read the kind of the outermost node, which has to be a name. -/
def readKind : JsonReader NodeKind := do
  match NodeKind.ofName? (← readText) with
  | some kind => return kind
  | none => failWith .mismatch

/-- Read the members of the outermost node, at most `bound` of them. The kind is checked where
it stands; the other members are read as values. -/
def readTreeMembers (room : Nat) :
    Nat → Bool → Option NodeKind → JsonReader (Option NodeKind × List (String × Json))
  | 0, _, _ => failWith .malformed
  | bound + 1, isFirst, kind => do
    if ← nextPart isFirst '}' then
      let name ← readName
      if name = "kind" then
        if kind.isSome then failWith .mismatch
        else
          expectChar ':'
          let kind ← readKind
          readTreeMembers room bound false (some kind)
      else
        expectChar ':'
        let value ← readJson room
        let (kind, members) ← readTreeMembers room bound false kind
        return (kind, (name, value) :: members)
    else return (kind, [])

/-- Read a dendrogram. -/
def readTree (room : Nat) : JsonReader (Dendrogram String) := do
  match ← nextChar with
  | some '[' =>
    enter room
    if ← nextPart true ']' then
      let kind ← readKind
      let items ← readItemsOf (readJson (room - 1)) ((← charsLeft) + 1) false
      finish (some kind) (.array items) ']'
    else failWith .mismatch
  | some '{' =>
    enter room
    let (kind, members) ← readTreeMembers (room - 1) ((← charsLeft) + 1) true none
    finish kind (.object members) '}'
  | _ => refuse
where
  finish (kind : Option NodeKind) (body : Json) (close : Char) :
      JsonReader (Dendrogram String) := do
    expectChar close
    match kind.bind (decodeNode (decodeTree jsonDepth) · body) with
    | some t => return t
    | none => failWith .mismatch

/-- The parts of a report document. -/
structure ReportParts where
  /-- The class names. -/
  classes : Option (List String) := none
  /-- The name of the linkage. -/
  linkage : Option String := none
  /-- The cohesion threshold. -/
  cohesionThreshold : Option Float := none
  /-- The call graph of methods. -/
  methodGraph : Option GraphDocument := none
  /-- The call graph of classes. -/
  classGraph : Option GraphDocument := none
  /-- The coupling graph. -/
  couplingGraph : Option CouplingDocument := none
  /-- The dendrogram. -/
  dendrogram : Option (Option (Dendrogram String)) := none
  /-- The modules. -/
  modules : Option (Option (Partition String)) := none

namespace ReportParts

/-- The fields of a report document, in order. -/
def fields : List (RecordField ReportParts) :=
  [.of "classes" classes (fun p a => { p with classes := a }) readTexts,
   .of "linkage" linkage (fun p a => { p with linkage := a }) fun _ => readText,
   .of "cohesion_threshold" cohesionThreshold (fun p a => { p with cohesionThreshold := a })
     fun _ => readReal,
   .of "method_graph" methodGraph (fun p a => { p with methodGraph := a }) readGraph,
   .of "class_graph" classGraph (fun p a => { p with classGraph := a }) readGraph,
   .of "coupling_graph" couplingGraph (fun p a => { p with couplingGraph := a }) readCoupling,
   .of "dendrogram" dendrogram (fun p a => { p with dendrogram := a })
     fun room => readOptional (readTree room),
   .of "modules" modules (fun p a => { p with modules := a })
     fun room => readOptional (readPartition room)]

/-- The document made of the parts. The dendrogram and the modules may be missing. -/
def complete? (p : ReportParts) : Option ReportDocument := do
  return {
    classes := ← p.classes
    linkage := ← p.linkage
    cohesionThreshold := ← p.cohesionThreshold
    methodGraph := ← p.methodGraph
    classGraph := ← p.classGraph
    couplingGraph := ← p.couplingGraph
    dendrogram := p.dendrogram.join
    modules := p.modules.join }

end ReportParts

/-- Read the report document of a text, behind which nothing but blanks may follow. -/
def readReport (text : String) : Except JsonFault ReportDocument := do
  let (document, rest) ←
    (readRecord ReportParts.fields {} ReportParts.complete? jsonDepth).run text.toList
  expectEnd rest
  return document

end ModuleRecovery
