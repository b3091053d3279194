import ModuleRecovery.Proofs.Collections.Lists
import ModuleRecovery.Proofs.Json.Reader
import ModuleRecovery.Report.Reader

set_option relaxedAutoImplicit false
set_option autoImplicit false

/-!
# Reading written records

A report document is read by readers that expect a certain form. What such a reader makes of a
value in a document does not depend on what stands around the value. So the readers of lists and
records are told by what the readers of their parts make of the parts.

## Main definitions

* `ModuleRecovery.Reads` — what a reader makes of a written value, inside a document.
* `ModuleRecovery.ReadsFields` — what a reader makes of the members of an object.

## Main results

* `ModuleRecovery.Reads.listOf` — reading a list.
* `ModuleRecovery.ReadsFields.record` — reading an object whose members are the fields of a record.
-/

namespace ModuleRecovery

open Json

/-- What a reader makes of a text inside a document, whatever blanks stand before it. -/
def Reads {α : Type} (read : JsonReader α) (text : List Char) (a? : Option α) : Prop :=
  ∀ s rest, EndsNumber rest → dropJsonBlanks s = text ++ rest → read s = outcome rest a?

variable {α β : Type} {read : JsonReader α} {next : α → JsonReader β} {text s u rest : List Char}
  {a : α} {a? : Option α} {c close : Char} {level room : Nat}

/-! ## One reader after the other -/

theorem bind_of_eq_ok (h : read s = .ok (a, u)) : (read >>= next) s = next a u := by
  show (read s >>= _) = _
  rw [h]
  rfl

theorem bind_of_eq_error {fault : JsonFault} (h : read s = .error fault) :
    (read >>= next) s = .error fault := by
  show (read s >>= _) = _
  rw [h]
  rfl

theorem bind_of_eq_outcome (h : read s = outcome rest a?) :
    (read >>= next) s = a?.elim (.error .malformed) fun a => next a rest := by
  cases a? with
  | none => exact bind_of_eq_error h
  | some a => exact bind_of_eq_ok h

theorem nextChar_eq (s : List Char) :
    nextChar s = .ok ((dropJsonBlanks s).head?, dropJsonBlanks s) := rfl

theorem dropChar_cons (c : Char) (s : List Char) : dropChar (c :: s) = .ok ((), s) := rfl

theorem charsLeft_eq (s : List Char) : charsLeft s = .ok (s.length, s) := rfl

theorem enter_succ (room : Nat) (c : Char) (s : List Char) :
    enter (room + 1) (c :: s) = .ok ((), s) := rfl

theorem expectChar_cons (h : dropJsonBlanks s = c :: u) : expectChar c s = .ok ((), u) := by
  have hnext : nextChar s = .ok (some c, c :: u) := by
    rw [nextChar_eq, h]
    rfl
  rw [expectChar, bind_of_eq_ok hnext, if_pos rfl]
  rfl

/-! ## Parts of a list or an object -/

/-- At the closing bracket there is no further part. -/
theorem nextPart_close (isFirst : Bool) (h : dropJsonBlanks s = close :: u) :
    nextPart isFirst close s = .ok (false, close :: u) := by
  have hnext : nextChar s = .ok (some close, close :: u) := by
    rw [nextChar_eq, h]
    rfl
  rw [nextPart, bind_of_eq_ok hnext]
  simp only [if_pos]
  rfl

/-- The first part stands right behind the opening bracket. -/
theorem nextPart_first (h : dropJsonBlanks s = c :: u) (hc : c ≠ close) :
    nextPart true close s = .ok (true, c :: u) := by
  have hnext : nextChar s = .ok (some c, c :: u) := by
    rw [nextChar_eq, h]
    rfl
  rw [nextPart, bind_of_eq_ok hnext]
  simp only [if_neg hc, if_pos]
  rfl

/-- Any other part stands behind a comma. -/
theorem nextPart_comma (h : dropJsonBlanks s = c :: u) (hc : c ≠ close) (hclose : close ≠ ',') :
    nextPart false close (',' :: s) = .ok (true, c :: u) := by
  have hcomma : nextChar (',' :: s) = .ok (some ',', ',' :: s) := by
    rw [nextChar_eq, dropJsonBlanks_cons (by rfl)]
    rfl
  have hnext : nextChar s = .ok (some c, c :: u) := by
    rw [nextChar_eq, h]
    rfl
  rw [nextPart, bind_of_eq_ok hcomma]
  simp only [if_neg hclose.symm, Bool.false_eq_true, if_false, if_true]
  rw [bind_of_eq_ok (dropChar_cons ',' s), bind_of_eq_ok hnext]
  simp only [if_neg hc]
  rfl

/-! ## Single values -/

namespace Reads

theorem string (s : String) (level : Nat) :
    Reads readText ((Json.string s).pretty level) (some s) := by
  intro u rest _ hu
  rw [readText, hu, pretty, jsonString_append]
  simp [readString_escaped, outcome, Except.map]

theorem bool (b : Bool) (level : Nat) : Reads readBool ((Json.bool b).pretty level) (some b) := by
  intro u rest _ hu
  rw [readBool, hu, pretty]
  cases b <;> rfl

/-- **A number becomes what is read for its text.** -/
theorem real {x : Float} (hx : x.isFinite = true) (level : Nat) :
    Reads readReal ((Json.ofFloat x).pretty level) (reread? x) := by
  intro u rest hrest hu
  obtain ⟨c, s, hs, hc⟩ := exists_write_eq_cons hx
  have hstart : (dropJsonBlanks u).head?.any (fun c => c = '-' || c.isDigit) = true := by
    rw [hu, ofFloat, pretty, hs]
    simpa using hc
  have hnumber := readNumber_write hx hrest
  rw [readReal]
  simp only [if_pos hstart]
  rw [hu, ofFloat, pretty, hnumber]
  cases reread? x <;> rfl

/-- What is made of the value that a reader finds. -/
theorem map (h : Reads read s a?) (f : α → β) : Reads (f <$> read) s (a?.map f) := by
  intro u rest hrest hu
  show (read u >>= _) = _
  rw [h u rest hrest hu]
  cases a? <;> rfl

/-- A value that nothing else reads. -/
theorem json {v : Json} {w? : Option Json} (h : ReadsValue room level v w?) :
    Reads (readJson room) (v.pretty level) w? := by
  intro u rest hrest hu
  have hlength : (v.pretty level ++ rest).length ≤ u.length := by
    rw [← hu]
    exact (List.dropWhile_sublist _).length_le
  rw [List.length_append] at hlength
  rw [readJson, readValue_congr _ _ _ (dropJsonBlanks_idem u).symm, hu]
  exact h _ rest (by omega) hrest

/-- A value that may be missing. What is there is an object, and so cannot be taken for a word. -/
theorem optional {item : JsonReader β} {encode : α → Json} {decode? : α → Option β}
    (a? : Option α) (hitem : ∀ a, a? = some a → Reads item ((encode a).pretty level) (decode? a))
    (hobject : ∀ a, a? = some a → ∃ m members, encode a = .object (m :: members)) :
    Reads (readOptional item) ((ofOption encode a?).pretty level) (a?.mapM decode?) := by
  intro u rest hrest hu
  cases a? with
  | none =>
    rw [readOptional, hu, ofOption, pretty]
    rfl
  | some a =>
    obtain ⟨m, members, ha⟩ := hobject a rfl
    have hread := hitem a rfl ((encode a).pretty level ++ rest) rest hrest (by
      rw [ha, pretty, List.cons_append, dropJsonBlanks_cons (by rfl)])
    rw [readOptional, hu, ofOption]
    rw [ha, pretty, List.cons_append] at hread ⊢
    show (item ('{' :: (prettyMembers level (m :: members) ++ rest))).map _ =
      outcome rest (some <$> decode? a)
    rw [hread]
    cases decode? a <;> rfl

/-! ## Lists -/

section Items

variable {item : JsonReader β} {encode : α → Json} {decode? : α → Option β}

/-- The items behind the first one. -/
theorem readItemsOf_itemsTail (l : List α)
    (hitem : ∀ a ∈ l, Reads item ((encode a).pretty (level + 1)) (decode? a)) {bound : Nat}
    (hbound : l.length < bound) (rest : List Char) :
    readItemsOf item bound false (itemsTail level (l.map encode) ++ rest) =
      outcome (']' :: rest) (l.mapM decode?) := by
  induction l generalizing bound with
  | nil =>
    obtain ⟨bound, rfl⟩ : ∃ k, bound = k + 1 := ⟨bound - 1, by omega⟩
    have hclose : dropJsonBlanks (itemsTail level (([] : List α).map encode) ++ rest) =
        ']' :: rest := by
      rw [List.map_nil, itemsTail, List.append_assoc, dropJsonBlanks_newLine]
      exact dropJsonBlanks_cons (by rfl)
    rw [readItemsOf, bind_of_eq_ok (nextPart_close false hclose)]
    rfl
  | cons a l ih =>
    obtain ⟨bound, rfl⟩ : ∃ k, bound = k + 1 := ⟨bound - 1, by omega⟩
    rw [List.length_cons] at hbound
    have htail := ih (fun b hb => hitem b (List.mem_cons_of_mem a hb)) (by omega : l.length < bound)
    obtain ⟨c, s, hs, hc⟩ := exists_pretty_eq_cons (level + 1) (encode a)
    have hdrop : dropJsonBlanks (prettyItems level (encode a :: l.map encode) ++ rest) =
        (encode a).pretty (level + 1) ++ (itemsTail level (l.map encode) ++ rest) := by
      rw [prettyItems_cons, List.append_assoc, dropJsonBlanks_newLine, List.append_assoc, hs,
        List.cons_append, dropJsonBlanks_cons hc.notBlank]
    have hpart := hdrop
    rw [hs, List.cons_append] at hpart
    have hread := hitem a List.mem_cons_self _ (itemsTail level (l.map encode) ++ rest)
      (endsNumber_itemsTail _ _ _) ((congrArg dropJsonBlanks hdrop.symm).trans
        ((dropJsonBlanks_idem _).trans hdrop))
    rw [hs, List.cons_append] at hread
    rw [List.map_cons, itemsTail, List.cons_append, readItemsOf,
      bind_of_eq_ok (nextPart_comma hpart hc.ne_bracket (by decide))]
    simp only [if_true]
    rw [bind_of_eq_outcome hread, List.mapM_cons]
    cases decode? a with
    | none => rfl
    | some b =>
      show (readItemsOf item bound false >>= _) (itemsTail level (l.map encode) ++ rest) = _
      rw [bind_of_eq_outcome htail]
      cases l.mapM decode? <;> rfl

/-- The first item is read like the others, but for the comma. -/
theorem readItemsOf_first (v : Json) (items : List Json) (bound : Nat) (rest : List Char) :
    readItemsOf item bound true (prettyItems level (v :: items) ++ rest) =
      readItemsOf item bound false (itemsTail level (v :: items) ++ rest) := by
  cases bound with
  | zero => rfl
  | succ bound =>
    obtain ⟨c, s, hs, hc⟩ := exists_pretty_eq_cons (level + 1) v
    have hdrop : dropJsonBlanks (prettyItems level (v :: items) ++ rest) =
        c :: (s ++ (itemsTail level items ++ rest)) := by
      rw [prettyItems_cons, List.append_assoc, dropJsonBlanks_newLine, List.append_assoc, hs,
        List.cons_append, dropJsonBlanks_cons hc.notBlank]
    rw [readItemsOf, readItemsOf, bind_of_eq_ok (nextPart_first hdrop hc.ne_bracket), itemsTail,
      List.cons_append, bind_of_eq_ok (nextPart_comma hdrop hc.ne_bracket (by decide))]

/-- **A list is read item by item.** -/
theorem listOf {readItem : Nat → JsonReader β} (l : List α)
    (hitem : ∀ a ∈ l, Reads (readItem room) ((encode a).pretty (level + 1)) (decode? a)) :
    Reads (readListOf readItem (room + 1)) ((Json.array (l.map encode)).pretty level)
      (l.mapM decode?) := by
  intro u rest _ hu
  obtain ⟨body, hbody, hread⟩ : ∃ body, (Json.array (l.map encode)).pretty level = '[' :: body ∧
      readItemsOf (readItem room) ((body ++ rest).length + 1) true (body ++ rest) =
        outcome (']' :: rest) (l.mapM decode?) := by
    cases l with
    | nil =>
      refine ⟨[']'], by rw [List.map_nil, pretty], ?_⟩
      rw [readItemsOf, List.singleton_append,
        bind_of_eq_ok (nextPart_close true (dropJsonBlanks_cons (by rfl)))]
      rfl
    | cons a l =>
      refine ⟨_, by rw [List.map_cons, pretty], ?_⟩
      have hlength := length_le_prettyItems level ((a :: l).map encode)
      rw [List.length_map] at hlength
      rw [readItemsOf_first]
      exact readItemsOf_itemsTail (a :: l) hitem (by
        rw [List.length_append, ← List.map_cons]
        omega) rest
  have hnext : nextChar u = .ok (some '[', '[' :: (body ++ rest)) := by
    rw [nextChar_eq, hu, hbody]
    rfl
  rw [readListOf, bind_of_eq_ok hnext, if_pos rfl, bind_of_eq_ok (enter_succ _ _ _),
    bind_of_eq_ok (charsLeft_eq _)]
  simp only [Nat.add_sub_cancel]
  rw [bind_of_eq_outcome hread]
  cases l.mapM decode? with
  | none => rfl
  | some items =>
    show (expectChar ']' >>= _) (']' :: rest) = _
    rw [bind_of_eq_ok (expectChar_cons (dropJsonBlanks_cons (by rfl)))]
    rfl

/-- A list whose items are all read back is read back. -/
theorem listOf_some {readItem : Nat → JsonReader α} (l : List α)
    (hitem : ∀ a ∈ l, Reads (readItem room) ((encode a).pretty (level + 1)) (some a)) :
    Reads (readListOf readItem (room + 1)) ((Json.array (l.map encode)).pretty level) (some l) := by
  have hread := listOf l hitem
  rwa [mapM_eq_some_self_iff.2 fun _ _ => rfl] at hread

end Items

end Reads

/-! ## Objects -/

section Members

variable {name : String} {v : Json} {m : String × Json} {members : List (String × Json)}

/-- An object is entered behind its brace. -/
theorem nextChar_object (h : dropJsonBlanks s = (Json.object (m :: members)).pretty level ++ rest) :
    nextChar s = .ok (some '{', '{' :: (prettyMembers level (m :: members) ++ rest)) := by
  rw [nextChar_eq, h, pretty]
  rfl

/-- There are fewer members than characters. -/
theorem length_lt_prettyMembers (level : Nat) (m : String × Json) (members : List (String × Json))
    (rest : List Char) :
    (m :: members).length < (prettyMembers level (m :: members) ++ rest).length + 1 := by
  have hlength := length_le_prettyMembers level (m :: members)
  rw [List.length_append]
  omega

/-- Behind a comma stands a member: its name, a colon and its value. -/
theorem nextPart_member (level : Nat) (name : String) (v : Json)
    (members : List (String × Json)) (rest : List Char) :
    nextPart false '}' (membersTail level ((name, v) :: members) ++ rest) =
      .ok (true, jsonString name ++ ':' :: ' ' ::
        (v.pretty (level + 1) ++ (membersTail level members ++ rest))) := by
  have hdrop : dropJsonBlanks (prettyMembers level ((name, v) :: members) ++ rest) =
      jsonString name ++ ':' :: ' ' ::
        (v.pretty (level + 1) ++ (membersTail level members ++ rest)) := by
    rw [prettyMembers_cons, List.append_assoc, dropJsonBlanks_newLine, List.append_assoc,
      jsonString_append, jsonString_append, dropJsonBlanks_cons (by rfl)]
    simp
  rw [jsonString_append] at hdrop ⊢
  exact nextPart_comma hdrop (by decide) (by decide)

/-- The first member is read like the others, but for the comma. -/
theorem nextPart_firstMember (level : Nat) (m : String × Json) (members : List (String × Json))
    (rest : List Char) :
    nextPart true '}' (prettyMembers level (m :: members) ++ rest) =
      nextPart false '}' (membersTail level (m :: members) ++ rest) := by
  have hdrop : dropJsonBlanks (prettyMembers level (m :: members) ++ rest) =
      '"' :: (m.1.toList.flatMap escapeJsonChar ++ '"' :: ':' :: ' ' ::
        (m.2.pretty (level + 1) ++ (membersTail level members ++ rest))) := by
    rw [prettyMembers_cons level m.1 m.2, List.append_assoc, dropJsonBlanks_newLine,
      List.append_assoc, jsonString_append, dropJsonBlanks_cons (by rfl)]
    simp
  rw [nextPart_first hdrop (by decide), membersTail, List.cons_append,
    nextPart_comma hdrop (by decide) (by decide)]

/-- At the closing brace there is no further member. -/
theorem nextPart_lastMember (level : Nat) (rest : List Char) :
    nextPart false '}' (membersTail level [] ++ rest) = .ok (false, '}' :: rest) := by
  refine nextPart_close false ?_
  rw [membersTail, List.append_assoc, dropJsonBlanks_newLine]
  exact dropJsonBlanks_cons (by rfl)

theorem readName_jsonString (name : String) (rest : List Char) :
    readName (jsonString name ++ rest) = .ok (name, rest) := by
  have hnext : nextChar (jsonString name ++ rest) = .ok (some '"', jsonString name ++ rest) := by
    rw [nextChar_eq, jsonString_append, dropJsonBlanks_cons (by rfl)]
    rfl
  rw [readName, bind_of_eq_ok hnext, if_pos rfl, jsonString_append, readText,
    dropJsonBlanks_cons (by rfl)]
  simp [readString_escaped, Except.map]

theorem expectChar_colon (s : List Char) : expectChar ':' (':' :: s) = .ok ((), s) :=
  expectChar_cons (dropJsonBlanks_cons (by rfl))

/-- The value of a member is read behind its colon. -/
theorem Reads.member (h : Reads read (v.pretty (level + 1)) a?)
    (members : List (String × Json)) (rest : List Char) :
    read (' ' :: (v.pretty (level + 1) ++ (membersTail level members ++ rest))) =
      outcome (membersTail level members ++ rest) a? := by
  refine h _ _ (endsNumber_membersTail _ _ _) ?_
  obtain ⟨c, s, hs, hc⟩ := exists_pretty_eq_cons (level + 1) v
  rw [hs, List.cons_append]
  exact dropJsonBlanks_cons hc.notBlank

end Members

/-! ## Records -/

/-- What becomes of the parts of a record when the given members of an object are read. -/
def ReadsFields {σ : Type} (fields : List (RecordField σ)) (room level : Nat)
    (members : List (String × Json)) (parts : σ) (end? : Option σ) : Prop :=
  ∀ bound rest, members.length < bound →
    readNamed fields room bound false parts (membersTail level members ++ rest) =
      outcome ('}' :: rest) end?

section Fields

variable {σ : Type} {fields : List (RecordField σ)} {parts : σ} {end? : Option σ}
  {members : List (String × Json)} {m : String × Json}

theorem ReadsFields.nil (parts : σ) : ReadsFields fields room level [] parts (some parts) := by
  intro bound rest hbound
  obtain ⟨bound, rfl⟩ : ∃ k, bound = k + 1 := ⟨bound - 1, by omega⟩
  rw [readNamed, bind_of_eq_ok (nextPart_lastMember level rest)]
  rfl

/-- A member is read as the field of its name, and then what follows it. -/
theorem ReadsFields.cons {name : String} {v : Json} {get : σ → Option α} {set : σ → Option α → σ}
    {read : Nat → JsonReader α} {then? : α → Option σ}
    (hfind : fields.find? (·.name = name) = some (.of name get set read))
    (hfresh : get parts = none) (hread : Reads (read room) (v.pretty (level + 1)) a?)
    (hmembers : ∀ a, ReadsFields fields room level members (set parts (some a)) (then? a)) :
    ReadsFields fields room level ((name, v) :: members) parts (a?.bind then?) := by
  intro bound rest hbound
  obtain ⟨bound, rfl⟩ : ∃ k, bound = k + 1 := ⟨bound - 1, by omega⟩
  rw [List.length_cons] at hbound
  have hfield : (RecordField.of name get set read).read room parts
      (' ' :: (v.pretty (level + 1) ++ (membersTail level members ++ rest))) =
      outcome (membersTail level members ++ rest) (a?.map fun a => set parts (some a)) := by
    show (read room >>= _) _ = _
    rw [bind_of_eq_outcome (hread.member members rest)]
    cases a? <;> rfl
  rw [readNamed, bind_of_eq_ok (nextPart_member level name v members rest)]
  simp only [if_true]
  rw [bind_of_eq_ok (readName_jsonString _ _)]
  simp only [hfind]
  have hnew : (RecordField.of name get set read).isRead parts = false := by
    simp [RecordField.of, hfresh]
  simp only [hnew, Bool.false_eq_true, if_false]
  rw [bind_of_eq_ok (expectChar_colon _), bind_of_eq_outcome hfield]
  cases a? with
  | none => rfl
  | some a => exact hmembers a bound rest (by omega)

/-- **A record is read from the object of its fields**, if they make up a complete record. -/
theorem ReadsFields.record {start : σ} {complete : σ → Option α}
    (hmembers : ReadsFields fields room level (m :: members) start end?)
    (hcomplete : end?.map complete = a?.map some) :
    Reads (readRecord fields start complete (room + 1))
      ((Json.object (m :: members)).pretty level) a? := by
  intro u rest _ hu
  have hfirst : ∀ bound, readNamed fields room (bound + 1) true start
      (prettyMembers level (m :: members) ++ rest) =
      readNamed fields room (bound + 1) false start (membersTail level (m :: members) ++ rest) := by
    intro bound
    rw [readNamed, readNamed]
    show (nextPart true '}' _ >>= _) = (nextPart false '}' _ >>= _)
    rw [nextPart_firstMember]
  have hread := hmembers _ rest (length_lt_prettyMembers level m members rest)
  rw [← hfirst] at hread
  rw [readRecord, bind_of_eq_ok (nextChar_object hu)]
  show (enter (room + 1) >>= _) _ = _
  rw [bind_of_eq_ok (enter_succ _ _ _), bind_of_eq_ok (charsLeft_eq _)]
  simp only [Nat.add_sub_cancel]
  rw [bind_of_eq_outcome hread]
  cases end? with
  | none =>
    cases a? with
    | none => rfl
    | some a => cases hcomplete
  | some parts =>
    cases a? with
    | none => cases hcomplete
    | some a =>
      have hparts : complete parts = some a := Option.some.inj hcomplete
      show readRecord.finish complete parts '}' ('}' :: rest) = _
      rw [readRecord.finish, hparts]
      show (expectChar '}' >>= _) _ = _
      rw [bind_of_eq_ok (expectChar_cons (dropJsonBlanks_cons (by rfl)))]
      rfl

/-- **A record of two fields**, in the order in which they were written. -/
theorem Reads.two {first : Nat → JsonReader α} {second : Nat → JsonReader β} {b? : Option β}
    (firstName secondName : String) {v w : Json} (hne : firstName ≠ secondName)
    (hfirst : Reads (first room) (v.pretty (level + 1)) a?)
    (hsecond : Reads (second room) (w.pretty (level + 1)) b?) :
    Reads (readTwo firstName first secondName second (room + 1))
      ((Json.object [(firstName, v), (secondName, w)]).pretty level)
      (a?.bind fun a => b?.map (Prod.mk a)) := by
  refine ReadsFields.record (.cons (List.find?_cons_of_pos (decide_eq_true rfl)) rfl hfirst fun a =>
    .cons ((List.find?_cons_of_neg (by simp [RecordField.of, hne])).trans
      (List.find?_cons_of_pos (decide_eq_true rfl))) rfl hsecond fun b => .nil _) ?_
  cases a? <;> cases b? <;> rfl

end Fields

end ModuleRecovery
