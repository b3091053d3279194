import ModuleRecovery.Model.Document
import ModuleRecovery.Proofs.Collections.Lists
import ModuleRecovery.Proofs.Json.Notation

set_option relaxedAutoImplicit false
set_option autoImplicit false

/-!
# Layouts of model documents

A model may be written in many ways. The list of its classes stands alone or in an object, and every
record in it is an object or a list, whatever the others are. An object may name the fields of a
record in any order and have other members too, and fields with their default values may be left
out: any of them in an object, and the last ones in a list. Decoding finds the same model in all of
them, and nothing else is decoded.

## Main definitions

* `ModuleRecovery.FieldLayout` — a field of a record, with the values that write it.
* `ModuleRecovery.WritesRecord` — a value writes a record with the given fields.
* `ModuleRecovery.WritesModel` — a value writes a model.

## Main results

* `ModuleRecovery.writesRecord_iff` — what the fields of a record are in either form.
* `ModuleRecovery.Decodes.record`, `ModuleRecovery.decodes_model` — a record and a model are decoded
  from every value that writes them.
* `ModuleRecovery.readModel_eq_ok_iff` — a model is read from every document that writes it.
-/

namespace ModuleRecovery

open Json

/-! ## Layouts -/

/-- A field of a record, with what its value in the record demands of a document. -/
structure FieldLayout where
  /-- The name of the field. -/
  name : String
  /-- The field has its default value, and so may be left out. -/
  IsDefault : Prop
  /-- Which values write the field. -/
  Writes : Json → Prop

/-- A string writes a text. -/
def WritesText (s : String) (v : Json) : Prop :=
  v = .string s

/-- A string writes a text that may be missing, and `null` writes a missing one. An empty text is
not a missing one. -/
def WritesOptionalText (s? : Option String) (v : Json) : Prop :=
  v = .ofOption .string s?

/-- A list writes its items one by one. -/
inductive WritesList {α : Type} (writes : α → Json → Prop) (l : List α) : Json → Prop
  /-- Every item is written on its own. -/
  | items {items : List Json} (h : List.Forall₂ writes l items) : WritesList writes l (.array items)

namespace FieldLayout

/-- A text, empty by default. -/
def text (name : String) (s : String) : FieldLayout where
  name
  IsDefault := s = ""
  Writes := WritesText s

/-- A text that may be missing, and is by default. -/
def optionalText (name : String) (s? : Option String) : FieldLayout where
  name
  IsDefault := s? = none
  Writes := WritesOptionalText s?

/-- A list, empty by default. -/
def list {α : Type} (writes : α → Json → Prop) (name : String) (l : List α) : FieldLayout where
  name
  IsDefault := l = []
  Writes := WritesList writes l

/-- What may stand in an object under the name of a field: one value that writes it, or nothing if
it has its default value. -/
inductive Occurs (f : FieldLayout) : List (String × Json) → Prop
  /-- The field is written, once. -/
  | written {v : Json} (h : f.Writes v) : Occurs f [(f.name, v)]
  /-- The field is left out. -/
  | omitted (h : f.IsDefault) : Occurs f []

end FieldLayout

/-- The items of a list write the fields in order. The last fields may be left out if all of them
have their default values. -/
inductive WritesFields : List FieldLayout → List Json → Prop
  /-- All of the other fields are left out. -/
  | omitted {fields : List FieldLayout} (h : ∀ f ∈ fields, f.IsDefault) : WritesFields fields []
  /-- The next field is written. -/
  | written {f : FieldLayout} {fields : List FieldLayout} {v : Json} {items : List Json}
      (h : f.Writes v) (hitems : WritesFields fields items) :
      WritesFields (f :: fields) (v :: items)

/-- A value writes a record with the given fields. -/
inductive WritesRecord (fields : List FieldLayout) : Json → Prop
  /-- An object, whose members may come in any order and have other names too. -/
  | object {members : List (String × Json)}
      (h : ∀ f ∈ fields, f.Occurs (members.filter (·.1 = f.name))) :
      WritesRecord fields (.object members)
  /-- A list of the fields. -/
  | list {items : List Json} (h : WritesFields fields items) : WritesRecord fields (.array items)

/-- The fields of a call record, in order. -/
def CallRecord.layout (d : CallRecord) : List FieldLayout :=
  [.text "name" d.name,
    .optionalText "declaring_type" d.declaringType,
    .optionalText "receiver_type" d.receiverType,
    .optionalText "key" d.key,
    .optionalText "signature" d.signature]

/-- A value writes a call record. -/
def WritesCall (d : CallRecord) : Json → Prop :=
  WritesRecord d.layout

/-- The fields of a method record, in order. -/
def MethodRecord.layout (m : MethodRecord) : List FieldLayout :=
  [.text "name" m.name,
    .list WritesText "parameter_types" m.parameterTypes,
    .optionalText "key" m.key,
    .list WritesCall "calls" m.calls]

/-- A value writes a method record. -/
def WritesMethod (m : MethodRecord) : Json → Prop :=
  WritesRecord m.layout

/-- The fields of a class record, in order. -/
def ClassRecord.layout (c : ClassRecord) : List FieldLayout :=
  [.text "package_name" c.packageName,
    .text "simple_name" c.simpleName,
    .text "qualified_name" c.qualifiedName,
    .list WritesMethod "methods" c.methods]

/-- A value writes a class record. -/
def WritesClass (c : ClassRecord) : Json → Prop :=
  WritesRecord c.layout

/-- A value writes a model. -/
inductive WritesModel (classes : List ClassRecord) : Json → Prop
  /-- The list of the classes stands alone. -/
  | bare {v : Json} (h : WritesList WritesClass classes v) : WritesModel classes v
  /-- The list of the classes is a member of an object, which may have other members too. -/
  | wrapped {members : List (String × Json)} {v : Json}
      (hname : members.filter (·.1 = "classes") = [("classes", v)])
      (h : WritesList WritesClass classes v) : WritesModel classes (.object members)

/-! ## Decoding a field -/

/-- A decoder finds a value exactly in what writes it. -/
def Decodes {α : Type} (decode : Json → Except JsonFault α) (writes : α → Json → Prop) : Prop :=
  ∀ a v, decode v = .ok a ↔ writes a v

theorem decodes_string : Decodes decodeString WritesText := by
  intro s v
  cases v <;> simp [decodeString, WritesText]

theorem decodes_optionalString : Decodes decodeOptionalString WritesOptionalText := by
  intro s? v
  cases s? <;> cases v <;> simp [decodeOptionalString, WritesOptionalText, ofOption]

variable {α : Type} {decode : Json → Except JsonFault α} {writes : α → Json → Prop}

theorem Decodes.list (h : Decodes decode writes) :
    Decodes (decodeList decode) (WritesList writes) := by
  intro l v
  constructor
  · intro hdecode
    cases v with
    | array items =>
      rw [decodeList, mapM_eq_ok_iff] at hdecode
      exact .items (hdecode.imp fun a v => (h a v).1)
    | _ => cases hdecode
  · rintro ⟨hitems⟩
    exact mapM_eq_ok_iff.2 (hitems.imp fun a v => (h a v).2)

/-! ## Decoding a record -/

variable {f : FieldLayout} {layout : List FieldLayout} {v : Json} {items : List Json}
  {fields members : List (String × Json)}

namespace FieldLayout

theorem occurs_nil_iff : f.Occurs [] ↔ f.IsDefault :=
  ⟨fun h => by cases h; assumption, .omitted⟩

theorem occurs_singleton_iff : f.Occurs [(f.name, v)] ↔ f.Writes v :=
  ⟨fun h => by cases h; assumption, .written⟩

theorem Occurs.length_le_one (h : f.Occurs fields) : fields.length ≤ 1 := by
  cases h with
  | written => exact le_refl 1
  | omitted => exact Nat.zero_le 1

end FieldLayout

/-- **A field is decoded exactly from what may stand under its name.** -/
theorem decodeField_eq_ok_iff (hdecode : Decodes decode writes)
    (hnodup : (fields.map Prod.fst).Nodup) (name : String) (a default : α) :
    decodeField fields name default decode = .ok a ↔
      FieldLayout.Occurs ⟨name, a = default, writes a⟩ (fields.filter (·.1 = name)) := by
  rw [filter_eq_toList_find? hnodup, decodeField]
  cases hfind : fields.find? (·.1 = name) with
  | none =>
    rw [Option.toList_none, FieldLayout.occurs_nil_iff]
    exact ⟨fun h => (Except.ok.inj h).symm, fun h => congrArg Except.ok h.symm⟩
  | some p =>
    obtain ⟨name', v⟩ := p
    obtain rfl : name' = name := by simpa using List.find?_some hfind
    rw [Option.toList_some, FieldLayout.occurs_singleton_iff]
    exact hdecode a v

theorem writesFields_cons_iff :
    WritesFields (f :: layout) (v :: items) ↔ f.Writes v ∧ WritesFields layout items := by
  constructor
  · rintro (_ | ⟨h, hitems⟩)
    exact ⟨h, hitems⟩
  · exact fun h => .written h.1 h.2

theorem writesRecord_array_iff : WritesRecord layout (.array items) ↔ WritesFields layout items :=
  ⟨fun h => by cases h; assumption, .list⟩

theorem writesRecord_object_iff : WritesRecord layout (.object members) ↔
    ∀ f ∈ layout, f.Occurs (members.filter (·.1 = f.name)) :=
  ⟨fun h => by cases h; assumption, .object⟩

/-- The items of a list write the fields of a record exactly if, put together with the names of the
fields, they are what may stand under these names. -/
theorem writesFields_iff (hnames : (layout.map (·.name)).Nodup) :
    WritesFields layout items ↔ items.length ≤ layout.length ∧
      ∀ f ∈ layout, f.Occurs (((layout.map (·.name)).zip items).filter (·.1 = f.name)) := by
  induction layout generalizing items with
  | nil =>
    constructor
    · rintro ⟨⟩
      exact ⟨le_refl 0, by simp⟩
    · rintro ⟨hlength, -⟩
      obtain rfl : items = [] := List.length_eq_zero_iff.1 (Nat.le_zero.1 hlength)
      exact .omitted (by simp)
  | cons f layout ih =>
    rw [List.map_cons, List.nodup_cons] at hnames
    cases items with
    | nil =>
      simp only [List.zip_nil_right, List.filter_nil, FieldLayout.occurs_nil_iff]
      exact ⟨fun h => ⟨Nat.zero_le _, by cases h; assumption⟩, fun h => .omitted h.2⟩
    | cons v items =>
      -- the first field and the others have different names, so neither finds what is the other's
      have hfirst : ((layout.map (·.name)).zip items).filter (·.1 = f.name) = [] := by
        rw [List.filter_eq_nil_iff]
        intro p hp hname
        exact hnames.1 (of_decide_eq_true hname ▸ (List.of_mem_zip hp).1)
      have hother : ∀ g ∈ layout, ¬ f.name = g.name := fun g hg hname =>
        hnames.1 (hname ▸ List.mem_map_of_mem hg)
      rw [writesFields_cons_iff, ih hnames.2, List.forall_mem_cons, List.map_cons,
        List.zip_cons_cons, List.filter_cons_of_pos (by simp), hfirst,
        FieldLayout.occurs_singleton_iff, List.length_cons, List.length_cons,
        Nat.add_le_add_iff_right]
      constructor
      · rintro ⟨hv, hlength, hfields⟩
        refine ⟨hlength, hv, fun g hg => ?_⟩
        rw [List.filter_cons_of_neg (by simpa using hother g hg)]
        exact hfields g hg
      · rintro ⟨hlength, hv, hfields⟩
        refine ⟨hv, hlength, fun g hg => ?_⟩
        have hg' := hfields g hg
        rwa [List.filter_cons_of_neg (by simpa using hother g hg)] at hg'

/-- If every field occurs as it may, no name of a field occurs twice. -/
theorem nodup_known_of_occurs
    (h : ∀ f ∈ layout, f.Occurs (members.filter (·.1 = f.name))) :
    ((members.filter (·.1 ∈ layout.map (·.name))).map Prod.fst).Nodup := by
  rw [List.nodup_iff_count_le_one]
  intro name
  by_cases hname : name ∈ layout.map (·.name)
  · obtain ⟨f, hf, rfl⟩ := List.mem_map.1 hname
    calc ((members.filter (·.1 ∈ layout.map (·.name))).map Prod.fst).count f.name
        ≤ (members.map Prod.fst).count f.name :=
          (List.filter_sublist.map Prod.fst).count_le f.name
      _ = (members.filter (·.1 = f.name)).length := by
          rw [List.count, List.countP_map, List.countP_eq_length_filter]
          rfl
      _ ≤ 1 := (h f hf).length_le_one
  · rw [List.count_eq_zero.2]
    · exact Nat.zero_le 1
    · intro hmem
      obtain ⟨p, hp, rfl⟩ := List.mem_map.1 hmem
      exact hname (of_decide_eq_true (List.mem_filter.1 hp).2)

/-- No field of a record is found twice. -/
theorem nodup_of_recordFields {names : List String} (hnames : names.Nodup)
    (h : recordFields names v = .ok fields) : (fields.map Prod.fst).Nodup := by
  cases v with
  | object members =>
    by_cases hnodup : ((members.filter (·.1 ∈ names)).map Prod.fst).Nodup
    · rw [recordFields, if_pos hnodup] at h
      exact Except.ok.inj h ▸ hnodup
    · rw [recordFields, if_neg hnodup] at h
      cases h
  | array items =>
    by_cases hlength : items.length ≤ names.length
    · rw [recordFields, if_pos hlength] at h
      rw [← Except.ok.inj h, List.zip_eq_zip_take_min, List.map_fst_zip (by simp)]
      exact hnames.sublist (List.take_sublist _ _)
    · rw [recordFields, if_neg hlength] at h
      cases h
  | _ => cases h

/-- **A value writes a record exactly if its fields, in whichever form, are what may stand under
their names.** -/
theorem writesRecord_iff (hnames : (layout.map (·.name)).Nodup) :
    WritesRecord layout v ↔ ∃ fields, recordFields (layout.map (·.name)) v = .ok fields ∧
      ∀ f ∈ layout, f.Occurs (fields.filter (·.1 = f.name)) := by
  cases v with
  | object members =>
    have hknown : ∀ f ∈ layout,
        (members.filter (·.1 ∈ layout.map (·.name))).filter (·.1 = f.name) =
          members.filter (·.1 = f.name) := by
      intro f hf
      rw [List.filter_filter]
      refine List.filter_congr fun p _ => ?_
      by_cases hp : p.1 = f.name
      · simp only [hp, List.mem_map_of_mem hf, decide_true, Bool.and_self]
      · simp only [hp, decide_false, Bool.false_and]
    rw [writesRecord_object_iff, recordFields]
    constructor
    · intro h
      exact ⟨_, if_pos (nodup_known_of_occurs h), fun f hf => (hknown f hf).symm ▸ h f hf⟩
    · rintro ⟨fields, hfields, h⟩ f hf
      split at hfields
      · rw [← hknown f hf, Except.ok.inj hfields]
        exact h f hf
      · cases hfields
  | array items =>
    rw [writesRecord_array_iff, writesFields_iff hnames, recordFields, List.length_map]
    constructor
    · rintro ⟨hlength, h⟩
      exact ⟨_, if_pos hlength, h⟩
    · rintro ⟨fields, hfields, h⟩
      split at hfields
      next hlength =>
        obtain rfl := Except.ok.inj hfields
        exact ⟨hlength, h⟩
      · cases hfields
  | _ => exact ⟨fun h => (by cases h), fun ⟨_, hfields, _⟩ => (by cases hfields)⟩

/-- **A record is decoded from whatever writes it**, if it is put together from its fields: no field
is found twice, and the result is the record whose fields may stand there. -/
theorem Decodes.record {layout : α → List FieldLayout} {names : List String}
    {next : List (String × Json) → Except JsonFault α}
    (hlayout : ∀ a, (layout a).map (·.name) = names) (hnames : names.Nodup)
    (hnext : ∀ fields, (fields.map Prod.fst).Nodup → ∀ a, next fields = .ok a ↔
      ∀ f ∈ layout a, f.Occurs (fields.filter (·.1 = f.name))) :
    Decodes (fun v => recordFields names v >>= next) fun a => WritesRecord (layout a) := by
  intro a v
  show (recordFields names v >>= next) = .ok a ↔ WritesRecord (layout a) v
  rw [writesRecord_iff (hlayout a ▸ hnames), hlayout, bind_eq_ok_iff]
  refine exists_congr fun fields => and_congr_right fun hfields => ?_
  exact hnext fields (nodup_of_recordFields hnames hfields) a

/-! ## Decoding a model -/

theorem CallRecord.map_name_layout (d : CallRecord) : d.layout.map (·.name) = callFields :=
  rfl

theorem MethodRecord.map_name_layout (m : MethodRecord) : m.layout.map (·.name) = methodFields :=
  rfl

theorem ClassRecord.map_name_layout (c : ClassRecord) : c.layout.map (·.name) = classFields :=
  rfl

theorem decodes_call : Decodes decodeCall WritesCall := by
  refine Decodes.record CallRecord.map_name_layout (by decide) fun fields hnodup d => ?_
  simp only [bind_eq_ok_iff, CallRecord.layout, List.forall_mem_cons,
    decodeField_eq_ok_iff decodes_string hnodup,
    decodeField_eq_ok_iff decodes_optionalString hnodup]
  constructor
  · rintro ⟨_, hname, _, hdeclaring, _, hreceiver, _, hkey, _, hsignature, hd⟩
    obtain rfl := Except.ok.inj hd
    exact ⟨hname, hdeclaring, hreceiver, hkey, hsignature, List.forall_mem_nil _⟩
  · rintro ⟨hname, hdeclaring, hreceiver, hkey, hsignature, -⟩
    exact ⟨_, hname, _, hdeclaring, _, hreceiver, _, hkey, _, hsignature, rfl⟩

theorem decodes_method : Decodes decodeMethod WritesMethod := by
  refine Decodes.record MethodRecord.map_name_layout (by decide) fun fields hnodup m => ?_
  simp only [bind_eq_ok_iff, MethodRecord.layout, List.forall_mem_cons,
    decodeField_eq_ok_iff decodes_string hnodup,
    decodeField_eq_ok_iff decodes_string.list hnodup,
    decodeField_eq_ok_iff decodes_optionalString hnodup,
    decodeField_eq_ok_iff decodes_call.list hnodup]
  constructor
  · rintro ⟨_, hname, _, htypes, _, hkey, _, hcalls, hm⟩
    obtain rfl := Except.ok.inj hm
    exact ⟨hname, htypes, hkey, hcalls, List.forall_mem_nil _⟩
  · rintro ⟨hname, htypes, hkey, hcalls, -⟩
    exact ⟨_, hname, _, htypes, _, hkey, _, hcalls, rfl⟩

theorem decodes_class : Decodes decodeClass WritesClass := by
  refine Decodes.record ClassRecord.map_name_layout (by decide) fun fields hnodup c => ?_
  simp only [bind_eq_ok_iff, ClassRecord.layout, List.forall_mem_cons,
    decodeField_eq_ok_iff decodes_string hnodup,
    decodeField_eq_ok_iff decodes_method.list hnodup]
  constructor
  · rintro ⟨_, hpackage, _, hsimple, _, hqualified, _, hmethods, hc⟩
    obtain rfl := Except.ok.inj hc
    exact ⟨hpackage, hsimple, hqualified, hmethods, List.forall_mem_nil _⟩
  · rintro ⟨hpackage, hsimple, hqualified, hmethods, -⟩
    exact ⟨_, hpackage, _, hsimple, _, hqualified, _, hmethods, rfl⟩

/-- A model is decoded from whatever writes it. -/
theorem decodes_model : Decodes decodeModel WritesModel := by
  intro classes v
  cases v with
  | object members =>
    constructor
    · intro h
      rw [decodeModel] at h
      split at h
      next name v hname =>
        obtain rfl : name = "classes" := by
          have hmem : (name, v) ∈ members.filter (·.1 = "classes") :=
            hname ▸ List.mem_singleton_self _
          simpa using (List.mem_filter.1 hmem).2
        exact .wrapped hname ((decodes_class.list classes v).1 h)
      · cases h
    · rintro (⟨⟨⟩⟩ | ⟨hname, h⟩)
      rw [decodeModel, hname]
      exact (decodes_class.list classes _).2 h
  | _ =>
    refine ⟨fun h => .bare ((decodes_class.list classes _).1 h), fun h => ?_⟩
    obtain ⟨h⟩ := h
    exact (decodes_class.list classes _).2 h

/-! ## Reading a document -/

theorem expectEnd_of_isBlankText {s : List Char} (h : IsBlankText s) : expectEnd s = .ok () := by
  have hdrop := h.dropJsonBlanks_append []
  rw [List.append_nil] at hdrop
  rw [expectEnd, hdrop]
  rfl

/-- What is read from a document is what its value is decoded to. -/
theorem readModel_of_isElementText {text : String} (h : IsElementText jsonDepth v text.toList) :
    readModel text = decodeModel v := by
  obtain ⟨after, hafter, hread⟩ := readJson_of_isElementText h
  unfold readModel
  rw [hread]
  simp only [bind, Except.bind, expectEnd_of_isBlankText hafter]
  cases decodeModel v <;> rfl

/-- **A model is read from a document exactly if the value of the document writes it**, in whatever
layout, and however the document writes that value. -/
theorem readModel_eq_ok_iff {text : String} (h : IsElementText jsonDepth v text.toList)
    (classes : List ClassRecord) : readModel text = .ok classes ↔ WritesModel classes v := by
  rw [readModel_of_isElementText h]
  exact decodes_model classes v

/-- A model in an object with another member, in which a class is a list, its method an object and
the call in it a list again, each with some fields left out. -/
def mixedText : String :=
  "\x7b\"version\":2,\"classes\":[[\"p\",\"A\",\"\"," ++
    "[\x7b\"calls\":[[\"f\",null,\"p.B\"]],\"name\":\"run\"\x7d]]]\x7d"

/-- The value of this document. -/
def mixedValue : Json :=
  .object [("version", .number (.natural 2)),
    ("classes", .array [.array [.string "p", .string "A", .string "",
      .array [.object [("calls", .array [.array [.string "f", .null, .string "p.B"]]),
        ("name", .string "run")]]]])]

theorem isElementText_mixedText : IsElementText jsonDepth mixedValue mixedText.toList := by
  have hcall := (IsValueText.array (.cons (isElementText_jsonString 120 "f")
    (.cons (IsValueText.null 120).isElementText
      (.single (isElementText_jsonString 120 "p.B"))))).isElementText
  have hmethod := (IsValueText.object (.cons
    ((IsValueText.array (.single hcall)).isElementText.isMemberText "calls")
    (.single ((isElementText_jsonString 122 "run").isMemberText "name")))).isElementText
  have hclass := (IsValueText.array (.cons (isElementText_jsonString 124 "p")
    (.cons (isElementText_jsonString 124 "A") (.cons (isElementText_jsonString 124 "")
      (.single (IsValueText.array (.single hmethod)).isElementText))))).isElementText
  have hversion : IsElementText 126 (.number (.natural 2)) ['2'] :=
    @IsValueText.isElementText _ 126 _ (@IsValueText.number 126 ⟨false, ['2'], [], none⟩ _ _
      ⟨.inr ⟨⟨'2', [], rfl, by decide⟩, by simp⟩, by simp, by simp⟩ (.parts .none) rfl)
  exact (IsValueText.object (.cons (hversion.isMemberText "version")
    (.single ((IsValueText.array (.single hclass)).isElementText.isMemberText
      "classes")))).isElementText

/-- The model in this document. -/
def mixedModel : List ClassRecord :=
  [{ packageName := "p", simpleName := "A",
     methods := [{ name := "run", calls := [{ name := "f", receiverType := some "p.B" }] }] }]

theorem writesModel_mixedValue : WritesModel mixedModel mixedValue := by
  have hcall : WritesCall { name := "f", receiverType := some "p.B" }
      (.array [.string "f", .null, .string "p.B"]) :=
    .list (.written rfl (.written rfl (.written rfl (.omitted (by
      simp [FieldLayout.optionalText])))))
  have hmethod : WritesMethod
      { name := "run", calls := [{ name := "f", receiverType := some "p.B" }] }
      (.object [("calls", .array [.array [.string "f", .null, .string "p.B"]]),
        ("name", .string "run")]) := by
    refine .object ?_
    simp only [MethodRecord.layout, List.forall_mem_cons]
    exact ⟨.written rfl, .omitted rfl, .omitted rfl, .written (.items (.cons hcall .nil)), by simp⟩
  have hclass : WritesList WritesClass mixedModel _ :=
    .items (.cons (.list (.written rfl (.written rfl (.written rfl
      (.written (.items (.cons hmethod .nil)) (.omitted (by simp))))))) .nil)
  exact .wrapped (by simp) hclass

/-- The mixed document is read. -/
theorem readModel_mixedText :
    IsElementText jsonDepth mixedValue mixedText.toList ∧ WritesModel mixedModel mixedValue ∧
      readModel mixedText = .ok mixedModel :=
  ⟨isElementText_mixedText, writesModel_mixedValue,
    (readModel_eq_ok_iff isElementText_mixedText mixedModel).2 writesModel_mixedValue⟩

end ModuleRecovery
