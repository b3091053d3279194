import ModuleRecovery.Proofs.Json.Number

set_option relaxedAutoImplicit false
set_option autoImplicit false

/-!
# Reading written values

A value that was written on several lines is read back as a value of the same form: strings
come back as they were, and each number becomes what is read for its text. The reading fails if
some number is too great, or if lists and objects are nested deeper than there is room.

## Main definitions

* `ModuleRecovery.IsStringText` — what may be written for the characters of a string.
* `ModuleRecovery.outcome` — the result of a reading that finds a value or breaks off.
* `ModuleRecovery.ReadsValue` — what is read for a written value, inside a document.
* `ModuleRecovery.ReadsItems`, `ModuleRecovery.ReadsMembers` — the same for the items of a list
  and the members of an object.

## Main results

* `ModuleRecovery.readString_of_isStringText` — a string is read, however it is written.
* `ModuleRecovery.readString_escaped` — a string is read back.
* `ModuleRecovery.ReadsValue.real`, `ModuleRecovery.ReadsValue.strings`,
  `ModuleRecovery.ReadsValue.object` — reading numbers, lists of strings and objects.
-/

namespace ModuleRecovery

open Json

variable {c : Char} {s rest : List Char} {level room : Nat}

/-! ## Blanks -/

theorem isJsonBlank_of_lt_toNat (h : 0x20 < c.toNat) : isJsonBlank c = false := by
  have hne : ∀ d : Char, d.toNat ≤ 0x20 → decide (c = d) = false := by
    intro d hd
    rw [decide_eq_false_iff_not]
    rintro rfl
    omega
  simp only [isJsonBlank, hne ' ' (by decide), hne '\t' (by decide), hne '\n' (by decide),
    hne '\r' (by decide), Bool.or_self]

theorem dropJsonBlanks_cons (h : isJsonBlank c = false) : dropJsonBlanks (c :: s) = c :: s := by
  rw [dropJsonBlanks, List.dropWhile_cons_of_neg (by simp [h])]

/-- A new line and its indentation are blanks. -/
theorem dropJsonBlanks_newLine (level : Nat) (s : List Char) :
    dropJsonBlanks (newLine level ++ s) = dropJsonBlanks s := by
  have hblank : ∀ d ∈ newLine level, isJsonBlank d = true := by
    intro d hd
    rcases List.mem_cons.1 hd with rfl | hd
    · rfl
    · rw [List.eq_of_mem_replicate hd]
      rfl
  exact List.dropWhile_append_of_pos hblank

/-! ## Strings -/

theorem readString_quote (lenient : Bool) (s : List Char) :
    readString lenient ('"' :: s) = .ok ([], s) := by
  delta readString
  rfl

/-- A character that needs no escape stands for itself. -/
theorem readString_plain (lenient : Bool) (hquote : c ≠ '"') (hslash : c ≠ '\\')
    (hcontrol : ¬ c.toNat < 0x20) :
    readString lenient (c :: s) = (readString lenient s).map fun p => (c :: p.1, p.2) := by
  delta readString
  show (if c = '"' then _ else if c = '\\' then _ else if c.toNat < 0x20 then _ else _) = _
  rw [if_neg hquote, if_neg hslash, if_neg hcontrol]

/-- Behind `\u` stands a number. What becomes of the first half of a pair is left open. -/
theorem exists_readString_unicode (a b c d : Char) (s : List Char) :
    ∃ pair : Nat → Except JsonFault (List Char × List Char),
      readString false ('\\' :: 'u' :: a :: b :: c :: d :: s) =
        match hexNumber? [a, b, c, d] with
        | none => .error .malformed
        | some n =>
          if isHighSurrogate n then pair n
          else if isLowSurrogate n then .error .malformed
          else (readString false s).map fun p => (Char.ofNat n :: p.1, p.2) := by
  delta readString
  exact ⟨_, rfl⟩

/-- A number behind `\u` that is no half of a pair stands for the character of that number. -/
theorem readString_unicode {a b c d : Char} {n : Nat} (h : hexNumber? [a, b, c, d] = some n)
    (hhigh : isHighSurrogate n = false) (hlow : isLowSurrogate n = false) :
    readString false ('\\' :: 'u' :: a :: b :: c :: d :: s) =
      (readString false s).map fun p => (Char.ofNat n :: p.1, p.2) := by
  obtain ⟨pair, heq⟩ := exists_readString_unicode a b c d s
  rw [heq, h]
  simp only [hhigh, hlow]
  rfl

/-- Behind two numbers that are halves of a pair the string goes on. What a first half without its
partner gives is left open, and so is a number that is no first half. -/
theorem exists_readString_pair (a b c d a' b' c' d' : Char) (s : List Char) :
    ∃ lone other : Nat → Except JsonFault (List Char × List Char),
      readString false
          ('\\' :: 'u' :: a :: b :: c :: d :: '\\' :: 'u' :: a' :: b' :: c' :: d' :: s) =
        match hexNumber? [a, b, c, d] with
        | none => .error .malformed
        | some n =>
          if isHighSurrogate n then
            match hexNumber? [a', b', c', d'] with
            | none => .error .malformed
            | some m =>
              if isLowSurrogate m then
                (readString false s).map fun p => (ofSurrogates n m :: p.1, p.2)
              else lone m
          else other n := by
  delta readString
  exact ⟨_, _, rfl⟩

/-- The halves of a pair stand for one character. -/
theorem readString_pair {a b c d a' b' c' d' : Char} {n m : Nat}
    (hn : hexNumber? [a, b, c, d] = some n) (hhigh : isHighSurrogate n = true)
    (hm : hexNumber? [a', b', c', d'] = some m) (hlow : isLowSurrogate m = true) :
    readString false
        ('\\' :: 'u' :: a :: b :: c :: d :: '\\' :: 'u' :: a' :: b' :: c' :: d' :: s) =
      (readString false s).map fun p => (ofSurrogates n m :: p.1, p.2) := by
  obtain ⟨lone, other, heq⟩ := exists_readString_pair a b c d a' b' c' d' s
  rw [heq, hn]
  simp only [hhigh, hm, hlow, if_true]

/-- Behind a backslash stands a character. What a longer escape stands for is left open. -/
theorem exists_readString_escape (lenient : Bool) (e : Char) (s : List Char) :
    ∃ longer : Except JsonFault (List Char × List Char),
      readString lenient ('\\' :: e :: s) =
        match shortEscape? e with
        | some d => (readString lenient s).map fun p => (d :: p.1, p.2)
        | none => longer := by
  delta readString
  exact ⟨_, rfl⟩

/-- A backslash and one more character stand for a character. -/
theorem readString_short (lenient : Bool) {e d : Char} (h : shortEscape? e = some d) :
    readString lenient ('\\' :: e :: s) =
      (readString lenient s).map fun p => (d :: p.1, p.2) := by
  obtain ⟨longer, heq⟩ := exists_readString_escape lenient e s
  rw [heq, h]

/-- What may be written between the quotes of a string. -/
inductive IsStringText : List Char → List Char → Prop
  /-- An empty string. -/
  | nil : IsStringText [] []
  /-- A character as it is, unless it is a quote, a backslash or a control character. -/
  | plain {c : Char} {cs s : List Char} (hquote : c ≠ '"') (hslash : c ≠ '\\')
      (hcontrol : ¬ c.toNat < 0x20) (h : IsStringText cs s) : IsStringText (c :: cs) (c :: s)
  /-- A character with a short escape. -/
  | short {e c : Char} {cs s : List Char} (he : shortEscape? e = some c)
      (h : IsStringText cs s) : IsStringText (c :: cs) ('\\' :: e :: s)
  /-- A character by its number, in four digits. -/
  | unicode {a b c d : Char} {n : Nat} {cs s : List Char} (hn : hexNumber? [a, b, c, d] = some n)
      (hhigh : isHighSurrogate n = false) (hlow : isLowSurrogate n = false)
      (h : IsStringText cs s) :
      IsStringText (Char.ofNat n :: cs) ('\\' :: 'u' :: a :: b :: c :: d :: s)
  /-- A character whose number needs more digits, by the two halves of its number. -/
  | pair {a b c d a' b' c' d' : Char} {n m : Nat} {cs s : List Char}
      (hn : hexNumber? [a, b, c, d] = some n) (hhigh : isHighSurrogate n = true)
      (hm : hexNumber? [a', b', c', d'] = some m) (hlow : isLowSurrogate m = true)
      (h : IsStringText cs s) :
      IsStringText (ofSurrogates n m :: cs)
        ('\\' :: 'u' :: a :: b :: c :: d :: '\\' :: 'u' :: a' :: b' :: c' :: d' :: s)

/-- **A string is read**, however it is written. -/
theorem readString_of_isStringText {cs : List Char} (h : IsStringText cs s) (rest : List Char) :
    readString false (s ++ '"' :: rest) = .ok (cs, rest) := by
  induction h with
  | nil => exact readString_quote false rest
  | plain hquote hslash hcontrol _ ih =>
    rw [List.cons_append, readString_plain false hquote hslash hcontrol, ih]
    rfl
  | short he _ ih =>
    rw [List.cons_append, List.cons_append, readString_short false he, ih]
    rfl
  | unicode hn hhigh hlow _ ih =>
    simp only [List.cons_append]
    rw [readString_unicode hn hhigh hlow, ih]
    rfl
  | pair hn hhigh hm hlow _ ih =>
    simp only [List.cons_append]
    rw [readString_pair hn hhigh hm hlow, ih]
    rfl

theorem hexNumber?_hexDigit {n : Nat} (h : n < 0x20) :
    hexNumber? ['0', '0', hexDigit (n / 16), hexDigit (n % 16)] = some n := by
  interval_cases n <;> rfl

/-- A character may be written with its escape. -/
theorem IsStringText.escape {cs : List Char} (h : IsStringText cs s) (c : Char) :
    IsStringText (c :: cs) (escapeJsonChar c ++ s) := by
  unfold escapeJsonChar
  split_ifs with hquote hslash hb hf hn hr ht hcontrol
  · exact .short (by rw [hquote]; rfl) h
  · exact .short (by rw [hslash]; rfl) h
  · exact .short (by rw [hb]; rfl) h
  · exact .short (by rw [hf]; rfl) h
  · exact .short (by rw [hn]; rfl) h
  · exact .short (by rw [hr]; rfl) h
  · exact .short (by rw [ht]; rfl) h
  · have hsmall : ∀ bound, 0x20 ≤ bound → decide (bound ≤ c.toNat) = false := by
      intro bound hbound
      rw [decide_eq_false_iff_not]
      omega
    have htext := IsStringText.unicode (hexNumber?_hexDigit hcontrol)
      (by rw [isHighSurrogate, hsmall _ (by decide)]; rfl)
      (by rw [isLowSurrogate, hsmall _ (by decide)]; rfl) h
    rwa [Char.ofNat_toNat] at htext
  · exact .plain hquote hslash hcontrol h

/-- A string may be written with its escapes. -/
theorem isStringText_escaped (cs : List Char) : IsStringText cs (cs.flatMap escapeJsonChar) := by
  induction cs with
  | nil => exact .nil
  | cons c cs ih =>
    rw [List.flatMap_cons]
    exact ih.escape c

/-- **A string is read back.** -/
theorem readString_escaped (cs rest : List Char) :
    readString false (cs.flatMap escapeJsonChar ++ '"' :: rest) = .ok (cs, rest) :=
  readString_of_isStringText (isStringText_escaped cs) rest

/-- A string between its quotes, at the front of a text. -/
theorem jsonString_append (name : String) (rest : List Char) :
    jsonString name ++ rest = '"' :: (name.toList.flatMap escapeJsonChar ++ '"' :: rest) := by
  simp [jsonString]

/-! ## Texts of values -/

/-- The result of a reading that finds a value, or breaks off at a text that breaks a rule. -/
def outcome {α : Type} (rest : List Char) : Option α → Except JsonFault (α × List Char)
  | some a => .ok (a, rest)
  | none => .error .malformed

/-- A character that a value may start with: neither a blank nor a closing bracket. -/
structure StartsValue (c : Char) : Prop where
  /-- It is no blank. -/
  notBlank : isJsonBlank c = false
  /-- It closes no list. -/
  ne_bracket : c ≠ ']'
  /-- It closes no object. -/
  ne_brace : c ≠ '}'

theorem startsValue_of_isDigit (h : c.isDigit = true) : StartsValue c := by
  have hrange : '0'.toNat ≤ c.toNat := by
    simp only [Char.isDigit, Bool.and_eq_true, decide_eq_true_eq] at h
    exact h.1
  refine ⟨isJsonBlank_of_lt_toNat (by simp at hrange; omega), ?_, ?_⟩
  · rintro rfl
    cases h
  · rintro rfl
    cases h

/-- The text of a value starts with a character that a value may start with. -/
theorem exists_pretty_eq_cons (level : Nat) (v : Json) :
    ∃ c s, v.pretty level = c :: s ∧ StartsValue c := by
  have hword : StartsValue 'n' := ⟨rfl, by decide, by decide⟩
  cases v with
  | null => exact ⟨_, _, by rw [pretty], hword⟩
  | bool b =>
    rw [pretty]
    cases b
    · exact ⟨_, _, rfl, rfl, by decide, by decide⟩
    · exact ⟨_, _, rfl, rfl, by decide, by decide⟩
  | number n =>
    rw [pretty]
    cases n with
    | natural n =>
      obtain ⟨c, s, hs⟩ := List.exists_cons_of_ne_nil (@Nat.toDigits_ne_nil n 10)
      refine ⟨c, s, hs, startsValue_of_isDigit (@isDigit_of_mem_decimalDigits n c ?_)⟩
      rw [decimalDigits, hs]
      exact List.mem_cons_self
    | negative n => exact ⟨_, _, rfl, rfl, by decide, by decide⟩
    | real x =>
      by_cases hx : x.isFinite = true
      · obtain ⟨c, s, hs, rfl | hc⟩ := exists_write_eq_cons hx
        · exact ⟨_, _, hs, rfl, by decide, by decide⟩
        · exact ⟨_, _, hs, startsValue_of_isDigit hc⟩
      · rw [JsonNumber.write, if_neg hx]
        exact ⟨_, _, rfl, hword⟩
  | string s =>
    rw [pretty]
    exact ⟨_, _, rfl, rfl, by decide, by decide⟩
  | array items => cases items <;> exact ⟨_, _, by rw [pretty], rfl, by decide, by decide⟩
  | object members => cases members <;> exact ⟨_, _, by rw [pretty], rfl, by decide, by decide⟩

/-- What follows an item of a list: the other items, or the closing bracket. -/
def itemsTail (level : Nat) : List Json → List Char
  | [] => newLine level ++ [']']
  | v :: items => ',' :: prettyItems level (v :: items)

/-- What follows a member of an object: the other members, or the closing brace. -/
def membersTail (level : Nat) : List (String × Json) → List Char
  | [] => newLine level ++ ['}']
  | m :: members => ',' :: prettyMembers level (m :: members)

theorem prettyItems_cons (level : Nat) (v : Json) (items : List Json) :
    prettyItems level (v :: items) =
      newLine (level + 1) ++ (v.pretty (level + 1) ++ itemsTail level items) := by
  cases items <;> simp [prettyItems, itemsTail]

theorem prettyMembers_cons (level : Nat) (name : String) (v : Json)
    (members : List (String × Json)) :
    prettyMembers level ((name, v) :: members) =
      newLine (level + 1) ++ (jsonString name ++ ':' :: ' ' ::
        (v.pretty (level + 1) ++ membersTail level members)) := by
  cases members <;> simp [prettyMembers, membersTail]

theorem length_le_prettyItems (level : Nat) (items : List Json) :
    items.length ≤ (prettyItems level items).length := by
  induction items with
  | nil => exact Nat.zero_le _
  | cons v items ih =>
    rw [prettyItems_cons]
    cases items with
    | nil => simp [newLine]
    | cons w items =>
      simp only [itemsTail, List.length_cons, List.length_append] at ih ⊢
      omega

theorem length_le_prettyMembers (level : Nat) (members : List (String × Json)) :
    members.length ≤ (prettyMembers level members).length := by
  induction members with
  | nil => exact Nat.zero_le _
  | cons m members ih =>
    rw [prettyMembers_cons level m.1 m.2]
    cases members with
    | nil => simp [newLine]
    | cons n members =>
      simp only [membersTail, List.length_cons, List.length_append] at ih ⊢
      omega

theorem endsNumber_cons (hdigit : c.isDigit = false) (hother : c ≠ '.' ∧ c ≠ 'e' ∧ c ≠ 'E') :
    EndsNumber (c :: s) := by
  refine ⟨?_, by simpa using hother.1, by simpa using hother.2⟩
  rintro d hd
  obtain rfl : c = d := by simpa using hd
  exact hdigit

theorem endsNumber_itemsTail (level : Nat) (items : List Json) (rest : List Char) :
    EndsNumber (itemsTail level items ++ rest) := by
  cases items with
  | nil => exact endsNumber_cons rfl (by decide)
  | cons v items => exact endsNumber_cons rfl (by decide)

theorem endsNumber_membersTail (level : Nat) (members : List (String × Json))
    (rest : List Char) : EndsNumber (membersTail level members ++ rest) := by
  cases members with
  | nil => exact endsNumber_cons rfl (by decide)
  | cons m members => exact endsNumber_cons rfl (by decide)

/-! ## Reading values -/

/-- What is read for a value written at a level, when it may be nested `room` deep. As many steps
as twice the length of the text are enough. -/
def ReadsValue (room level : Nat) (v : Json) (w? : Option Json) : Prop :=
  ∀ fuel rest, 2 * (v.pretty level).length ≤ fuel → EndsNumber rest →
    readValue false fuel room (v.pretty level ++ rest) = outcome rest w?

/-- What is read for the items of a list inside the given level. -/
def ReadsItems (room level : Nat) (items : List Json) (items'? : Option (List Json)) : Prop :=
  ∀ fuel rest, 2 * (prettyItems level items).length ≤ fuel + 1 →
    readItems false fuel room (prettyItems level items ++ rest) = outcome rest items'?

/-- What is read for the members of an object inside the given level. -/
def ReadsMembers (room level : Nat) (members : List (String × Json))
    (members'? : Option (List (String × Json))) : Prop :=
  ∀ fuel rest, 2 * (prettyMembers level members).length ≤ fuel + 1 →
    readMembers false fuel room (prettyMembers level members ++ rest) = outcome rest members'?

/-- Reading a value skips the blanks before it. -/
theorem readValue_congr (lenient : Bool) (fuel room : Nat) {s s' : List Char}
    (h : dropJsonBlanks s = dropJsonBlanks s') :
    readValue lenient fuel room s = readValue lenient fuel room s' := by
  cases fuel with
  | zero => rw [readValue, readValue]
  | succ fuel => rw [readValue, readValue, h]

theorem readItems_congr (lenient : Bool) (fuel room : Nat) {s s' : List Char}
    (h : dropJsonBlanks s = dropJsonBlanks s') :
    readItems lenient fuel room s = readItems lenient fuel room s' := by
  cases fuel with
  | zero => rw [readItems, readItems]
  | succ fuel => rw [readItems, readItems, readValue_congr lenient fuel room h]

theorem readMembers_congr (lenient : Bool) (fuel room : Nat) {s s' : List Char}
    (h : dropJsonBlanks s = dropJsonBlanks s') :
    readMembers lenient fuel room s = readMembers lenient fuel room s' := by
  cases fuel with
  | zero => rw [readMembers, readMembers]
  | succ fuel => rw [readMembers, readMembers, h]

theorem dropJsonBlanks_idem (s : List Char) :
    dropJsonBlanks (dropJsonBlanks s) = dropJsonBlanks s :=
  List.dropWhile_idempotent _ s

/-- Behind the bracket of a list that is not empty stand its items, if there is room for it. -/
theorem readValue_bracket {lenient : Bool} {fuel : Nat}
    (h : (dropJsonBlanks s).head? ≠ some ']') :
    readValue lenient (fuel + 1) (room + 1) ('[' :: s) =
      (readItems lenient fuel room s).map fun p => (.array p.1, p.2) := by
  rw [readValue, dropJsonBlanks_cons (by rfl),
    readItems_congr lenient fuel room (dropJsonBlanks_idem s).symm]
  dsimp only
  rw [if_neg (by decide), if_neg (by decide), if_neg (by decide), if_neg (by decide), if_pos rfl]
  generalize dropJsonBlanks s = u at h
  cases u with
  | nil => rfl
  | cons c u =>
    have hc : c ≠ ']' := by simpa using h
    split
    · omega
    next heq => exact absurd (List.cons.inj heq).1 hc
    next heq _ => rw [Nat.succ.inj heq]

/-- Behind the brace of an object that is not empty stand its members, if there is room for it. -/
theorem readValue_brace {lenient : Bool} {fuel : Nat}
    (h : (dropJsonBlanks s).head? ≠ some '}') :
    readValue lenient (fuel + 1) (room + 1) ('{' :: s) =
      (readMembers lenient fuel room s).map fun p => (.object p.1, p.2) := by
  rw [readValue, dropJsonBlanks_cons (by rfl),
    readMembers_congr lenient fuel room (dropJsonBlanks_idem s).symm]
  dsimp only
  rw [if_neg (by decide), if_neg (by decide), if_neg (by decide), if_neg (by decide),
    if_neg (by decide), if_pos rfl]
  generalize dropJsonBlanks s = u at h
  cases u with
  | nil => rfl
  | cons c u =>
    have hc : c ≠ '}' := by simpa using h
    split
    · omega
    next heq => exact absurd (List.cons.inj heq).1 hc
    next heq _ => rw [Nat.succ.inj heq]

/-- Behind a sign or a digit stands a number. -/
theorem readValue_number {lenient : Bool} {fuel : Nat} (hc : c = '-' ∨ c.isDigit = true) :
    readValue lenient (fuel + 1) room (c :: s) =
      (readNumber lenient (c :: s)).map fun p => (.number p.1, p.2) := by
  have hother : ∀ d : Char, d.isDigit = false → d ≠ '-' → c ≠ d := by
    rintro d hd hminus rfl
    rcases hc with rfl | hc
    · exact hminus rfl
    · rw [hd] at hc
      cases hc
  have hblank : isJsonBlank c = false := by
    rcases hc with rfl | hc
    · rfl
    · exact (startsValue_of_isDigit hc).notBlank
  rw [readValue, dropJsonBlanks_cons hblank]
  simp only [hother 'n' (by decide) (by decide), hother 't' (by decide) (by decide),
    hother 'f' (by decide) (by decide), hother '"' (by decide) (by decide),
    hother '[' (by decide) (by decide), hother '{' (by decide) (by decide), if_false]

namespace ReadsValue

variable {v : Json} {w? : Option Json} {items : List Json} {members : List (String × Json)}

/-- There is at least one step for a value. -/
theorem exists_fuel_eq_succ {fuel : Nat} (h : 2 * (v.pretty level).length ≤ fuel) :
    ∃ k, fuel = k + 1 := by
  obtain ⟨c, s, hs, -⟩ := exists_pretty_eq_cons level v
  rw [hs, List.length_cons] at h
  exact ⟨fuel - 1, by omega⟩

theorem string (room level : Nat) (s : String) :
    ReadsValue room level (.string s) (some (.string s)) := by
  intro fuel rest hfuel _
  obtain ⟨fuel, rfl⟩ := exists_fuel_eq_succ hfuel
  rw [pretty, jsonString_append, readValue, dropJsonBlanks_cons (by rfl)]
  simp [readString_escaped, outcome, Except.map]

/-- **A number becomes what is read for its text.** -/
theorem real (room level : Nat) {x : Float} (hx : x.isFinite = true) :
    ReadsValue room level (.ofFloat x) ((reread? x).map .ofFloat) := by
  intro fuel rest hfuel hrest
  obtain ⟨fuel, rfl⟩ := exists_fuel_eq_succ hfuel
  obtain ⟨c, s, hs, hc⟩ := exists_write_eq_cons hx
  rw [ofFloat, pretty, hs, List.cons_append, readValue_number hc, ← List.cons_append, ← hs,
    readNumber_write hx hrest]
  cases reread? x <;> rfl

end ReadsValue

/-! ### Lists of strings -/

theorem ReadsItems.strings (room level : Nat) (l : List String) (hne : l ≠ []) :
    ReadsItems room level (l.map .string) (some (l.map .string)) := by
  induction l with
  | nil => exact absurd rfl hne
  | cons s l ih =>
    intro fuel rest hfuel
    rw [List.map_cons, prettyItems_cons] at hfuel ⊢
    simp only [List.length_append] at hfuel
    have hlevel : 0 < (newLine (level + 1)).length := by simp [newLine]
    obtain ⟨fuel, rfl⟩ : ∃ k, fuel = k + 1 := ⟨fuel - 1, by omega⟩
    have hitem := ReadsValue.string room (level + 1) s fuel
      (itemsTail level (l.map .string) ++ rest) (by omega) (endsNumber_itemsTail _ _ _)
    rw [List.append_assoc, readItems_congr _ _ _ (dropJsonBlanks_newLine _ _),
      List.append_assoc, readItems, hitem]
    cases l with
    | nil =>
      have hclose : dropJsonBlanks (itemsTail level (([] : List String).map .string) ++ rest) =
          ']' :: rest := by
        rw [List.map_nil, itemsTail, List.append_assoc, dropJsonBlanks_newLine]
        exact dropJsonBlanks_cons (by rfl)
      rw [List.map_nil] at hclose
      simp only [outcome, List.map_nil, bind, Except.bind, hclose]
    | cons t l =>
      have hrest := ih (List.cons_ne_nil t l) fuel rest (by
        simp only [List.map_cons, itemsTail, List.length_cons] at hfuel ⊢
        omega)
      show (readItems false fuel room (prettyItems level ((t :: l).map .string) ++ rest)).map _ = _
      rw [hrest]
      rfl

/-- **A list of strings is read back**, if there is room for it. -/
theorem ReadsValue.strings (room level : Nat) (l : List String) :
    ReadsValue room level (.ofStrings l) (if room = 0 then none else some (.ofStrings l)) := by
  intro fuel rest hfuel hrest
  obtain ⟨fuel, rfl⟩ := exists_fuel_eq_succ hfuel
  rw [ofStrings] at hfuel ⊢
  cases l with
  | nil =>
    rw [List.map_nil, pretty, List.cons_append, readValue, dropJsonBlanks_cons (by rfl)]
    cases room <;> rfl
  | cons s l =>
    have hne : s :: l ≠ [] := List.cons_ne_nil s l
    rw [List.map_cons, pretty, List.length_cons] at hfuel
    rw [List.map_cons, pretty, List.cons_append]
    cases room with
    | zero =>
      rw [readValue, dropJsonBlanks_cons (by rfl)]
      rfl
    | succ room =>
      have hitems := ReadsItems.strings room level (s :: l) hne fuel rest (by
        rw [List.map_cons]
        omega)
      rw [readValue_bracket, ← List.map_cons, hitems]
      · rfl
      · rw [prettyItems_cons, List.append_assoc, dropJsonBlanks_newLine, pretty,
          List.append_assoc, jsonString_append, dropJsonBlanks_cons (by rfl)]
        simp

/-! ### Objects -/

namespace ReadsMembers

variable {name : String} {v : Json} {w? : Option Json} {members : List (String × Json)}
  {members'? : Option (List (String × Json))}

/-- A member is read, and then what follows it. -/
theorem readMembers_succ (hv : ReadsValue room (level + 1) v w?) {fuel : Nat}
    (hfuel : 2 * (v.pretty (level + 1)).length ≤ fuel) (rest : List Char) :
    readMembers false (fuel + 1) room (prettyMembers level ((name, v) :: members) ++ rest) =
      w?.elim (.error .malformed) fun w =>
        match dropJsonBlanks (membersTail level members ++ rest) with
        | ',' :: s => (readMembers false fuel room s).map fun p => ((name, w) :: p.1, p.2)
        | '}' :: s => .ok ([(name, w)], s)
        | _ => .error .malformed := by
  have hblank : ∀ u, readValue false fuel room (' ' :: u) = readValue false fuel room u :=
    fun u => readValue_congr _ _ _ (by rfl)
  have hvalue := hv fuel (membersTail level members ++ rest) hfuel
    (endsNumber_membersTail _ _ _)
  rw [prettyMembers_cons, List.append_assoc, readMembers_congr _ _ _ (dropJsonBlanks_newLine _ _),
    List.append_assoc, jsonString_append, readMembers, dropJsonBlanks_cons (by rfl)]
  show (readString false _ >>= _) = _
  rw [readString_escaped]
  show (readValue false fuel room (' ' :: (v.pretty (level + 1) ++ membersTail level members) ++
    rest) >>= _) = _
  rw [List.cons_append, List.append_assoc, hblank, hvalue]
  cases w? with
  | none => rfl
  | some w => simp only [String.ofList_toList]; rfl

/-- The last member of an object. -/
theorem single (name : String) (hv : ReadsValue room (level + 1) v w?) :
    ReadsMembers room level [(name, v)] (w?.map fun w => [(name, w)]) := by
  intro fuel rest hfuel
  have hlength : (v.pretty (level + 1)).length < (prettyMembers level [(name, v)]).length := by
    simp [prettyMembers_cons]
    omega
  obtain ⟨fuel, rfl⟩ : ∃ k, fuel = k + 1 := ⟨fuel - 1, by omega⟩
  have hclose : dropJsonBlanks (membersTail level [] ++ rest) = '}' :: rest := by
    rw [membersTail, List.append_assoc, dropJsonBlanks_newLine]
    exact dropJsonBlanks_cons (by rfl)
  rw [readMembers_succ hv (by omega), hclose]
  cases w? <;> rfl

/-- A member of an object, with others behind it. -/
theorem cons (name : String) (hv : ReadsValue room (level + 1) v w?) {m : String × Json}
    (hmembers : ReadsMembers room level (m :: members) members'?) :
    ReadsMembers room level ((name, v) :: m :: members)
      (w?.bind fun w => members'?.map ((name, w) :: ·)) := by
  intro fuel rest hfuel
  have hlength : (v.pretty (level + 1)).length + (prettyMembers level (m :: members)).length <
      (prettyMembers level ((name, v) :: m :: members)).length := by
    simp [prettyMembers_cons, membersTail]
    omega
  obtain ⟨fuel, rfl⟩ : ∃ k, fuel = k + 1 := ⟨fuel - 1, by omega⟩
  have hrest := hmembers fuel rest (by omega)
  rw [readMembers_succ hv (by omega), membersTail, List.cons_append,
    dropJsonBlanks_cons (by rfl)]
  cases w? with
  | none => rfl
  | some w =>
    simp only [hrest]
    cases members'? <;> rfl

end ReadsMembers

/-- **An object is read member by member**, if there is room for it. -/
theorem ReadsValue.object {m : String × Json} {members : List (String × Json)}
    {members'? : Nat → Option (List (String × Json))}
    (h : ∀ room, ReadsMembers room level (m :: members) (members'? room)) (room : Nat) :
    ReadsValue room level (.object (m :: members))
      (match room with
        | 0 => none
        | room + 1 => (members'? room).map .object) := by
  intro fuel rest hfuel hrest
  obtain ⟨fuel, rfl⟩ := exists_fuel_eq_succ hfuel
  rw [pretty, List.length_cons] at hfuel
  rw [pretty, List.cons_append]
  cases room with
  | zero =>
    rw [readValue, dropJsonBlanks_cons (by rfl)]
    rfl
  | succ room =>
    rw [readValue_brace, h room fuel rest (by omega)]
    · simp only
      cases members'? room <;> rfl
    · rw [prettyMembers_cons, List.append_assoc, dropJsonBlanks_newLine, List.append_assoc,
        jsonString_append, dropJsonBlanks_cons (by rfl)]
      simp

end ModuleRecovery
