import ModuleRecovery.Proofs.Json.Reader

set_option relaxedAutoImplicit false
set_option autoImplicit false

/-!
# The notation of JSON documents

There are many ways to write the same value: blanks may stand between any two tokens, a character
of a string may be written as it is or as one of its escapes, and a number with or without an
exponent. The reader finds the value in whatever way it is written.

## Main definitions

* `ModuleRecovery.IsValueText` — what may be written for a value that is nested at most so deep.
* `ModuleRecovery.IsElementText` — the same, with blanks around it.

## Main results

* `ModuleRecovery.readJson_of_isElementText` — a value is read, however it is written.
-/

namespace ModuleRecovery

variable {c : Char} {s t rest : List Char} {room : Nat}

/-! ## Texts of values -/

/-- Nothing but blanks. -/
def IsBlankText (s : List Char) : Prop :=
  ∀ c ∈ s, isJsonBlank c = true

mutual

/-- What may be written for a value in which lists and objects are nested at most `room` deep. -/
inductive IsValueText : Nat → Json → List Char → Prop
  /-- The value `null`. -/
  | null (room : Nat) : IsValueText room .null ['n', 'u', 'l', 'l']
  /-- A truth value. -/
  | bool (room : Nat) (b : Bool) : IsValueText room (.bool b) (Json.boolText b)
  /-- A number that is not too great. -/
  | number (room : Nat) {token : NumberToken} {n : JsonNumber} {s : List Char}
      (hwf : token.WellFormed) (hs : token.IsText s) (hn : token.value? = some n) :
      IsValueText room (.number n) s
  /-- A string in its quotes. -/
  | string (room : Nat) {cs s : List Char} (h : IsStringText cs s) :
      IsValueText room (.string (String.ofList cs)) ('"' :: (s ++ ['"']))
  /-- An empty list. -/
  | emptyArray {room : Nat} {s : List Char} (h : IsBlankText s) :
      IsValueText (room + 1) (.array []) ('[' :: (s ++ [']']))
  /-- A list of items. -/
  | array {room : Nat} {items : List Json} {s : List Char} (h : IsItemsText room items s) :
      IsValueText (room + 1) (.array items) ('[' :: (s ++ [']']))
  /-- An empty object. -/
  | emptyObject {room : Nat} {s : List Char} (h : IsBlankText s) :
      IsValueText (room + 1) (.object []) ('{' :: (s ++ ['}']))
  /-- A list of members. -/
  | object {room : Nat} {members : List (String × Json)} {s : List Char}
      (h : IsMembersText room members s) :
      IsValueText (room + 1) (.object members) ('{' :: (s ++ ['}']))

/-- What may be written for a value together with the blanks around it. -/
inductive IsElementText : Nat → Json → List Char → Prop
  /-- Blanks, the value, and blanks. -/
  | blanks {room : Nat} {v : Json} {before s after : List Char} (hbefore : IsBlankText before)
      (h : IsValueText room v s) (hafter : IsBlankText after) :
      IsElementText room v (before ++ (s ++ after))

/-- What may be written for the items of a list. -/
inductive IsItemsText : Nat → List Json → List Char → Prop
  /-- The last item. -/
  | single {room : Nat} {v : Json} {s : List Char} (h : IsElementText room v s) :
      IsItemsText room [v] s
  /-- An item, a comma and the others. -/
  | cons {room : Nat} {v : Json} {items : List Json} {s t : List Char}
      (h : IsElementText room v s) (hitems : IsItemsText room items t) :
      IsItemsText room (v :: items) (s ++ ',' :: t)

/-- What may be written for a member of an object: its name, a colon and its value. -/
inductive IsMemberText : Nat → String × Json → List Char → Prop
  /-- The name stands in quotes, with blanks around it. -/
  | named {room : Nat} {v : Json} {before cs name after s : List Char}
      (hbefore : IsBlankText before) (hname : IsStringText cs name) (hafter : IsBlankText after)
      (h : IsElementText room v s) :
      IsMemberText room (String.ofList cs, v)
        (before ++ '"' :: (name ++ '"' :: (after ++ ':' :: s)))

/-- What may be written for the members of an object. -/
inductive IsMembersText : Nat → List (String × Json) → List Char → Prop
  /-- The last member. -/
  | single {room : Nat} {m : String × Json} {s : List Char} (h : IsMemberText room m s) :
      IsMembersText room [m] s
  /-- A member, a comma and the others. -/
  | cons {room : Nat} {m : String × Json} {members : List (String × Json)} {s t : List Char}
      (h : IsMemberText room m s) (hmembers : IsMembersText room members t) :
      IsMembersText room (m :: members) (s ++ ',' :: t)

end

/-! ## Blanks -/

theorem IsBlankText.nil : IsBlankText [] := by
  simp [IsBlankText]

theorem IsBlankText.dropJsonBlanks_append (h : IsBlankText s) (rest : List Char) :
    dropJsonBlanks (s ++ rest) = dropJsonBlanks rest :=
  List.dropWhile_append_of_pos h

/-- A blank continues no number, so what follows a number may stand behind blanks. -/
theorem IsBlankText.endsNumber_append (h : IsBlankText s) (hrest : EndsNumber rest) :
    EndsNumber (s ++ rest) := by
  cases s with
  | nil => exact hrest
  | cons c s =>
    have hc : isJsonBlank c = true := h c List.mem_cons_self
    simp only [isJsonBlank, Bool.or_eq_true, decide_eq_true_eq] at hc
    rcases hc with ((rfl | rfl) | rfl) | rfl <;> exact endsNumber_cons rfl (by decide)

/-! ## Texts without needless blanks -/

/-- No blanks have to stand around a value. -/
theorem IsValueText.isElementText {v : Json} (h : IsValueText room v s) :
    IsElementText room v s := by
  simpa using IsElementText.blanks IsBlankText.nil h IsBlankText.nil

theorem isElementText_jsonString (room : Nat) (s : String) :
    IsElementText room (.string s) (jsonString s) := by
  simpa [jsonString] using (IsValueText.string room (isStringText_escaped s.toList)).isElementText

/-- No blanks have to stand around the name of a member. -/
theorem IsElementText.isMemberText {v : Json} (h : IsElementText room v s) (name : String) :
    IsMemberText room (name, v) (jsonString name ++ ':' :: s) := by
  have hmember := IsMemberText.named IsBlankText.nil (isStringText_escaped name.toList)
    IsBlankText.nil h
  rw [String.ofList_toList] at hmember
  simpa [jsonString] using hmember

/-! ## Reading values -/

/-- The text of a value starts with a character that a value may start with. -/
theorem IsValueText.exists_eq_cons {v : Json} (h : IsValueText room v s) :
    ∃ c u, s = c :: u ∧ StartsValue c := by
  cases h with
  | null => exact ⟨_, _, rfl, rfl, by decide, by decide⟩
  | bool _ b => cases b <;> exact ⟨_, _, rfl, rfl, by decide, by decide⟩
  | number _ hwf hs _ =>
    obtain ⟨c, u, hcons, rfl | hc⟩ := exists_eq_cons_of_isText hwf hs
    · exact ⟨_, _, hcons, rfl, by decide, by decide⟩
    · exact ⟨c, u, hcons, startsValue_of_isDigit hc⟩
  | string => exact ⟨_, _, rfl, rfl, by decide, by decide⟩
  | emptyArray => exact ⟨_, _, rfl, rfl, by decide, by decide⟩
  | array => exact ⟨_, _, rfl, rfl, by decide, by decide⟩
  | emptyObject => exact ⟨_, _, rfl, rfl, by decide, by decide⟩
  | object => exact ⟨_, _, rfl, rfl, by decide, by decide⟩

theorem IsElementText.head?_dropJsonBlanks {v : Json} (h : IsElementText room v s)
    (rest : List Char) : (dropJsonBlanks (s ++ rest)).head? ≠ some ']' := by
  obtain ⟨hbefore, hv, -⟩ := h
  obtain ⟨c, u, rfl, hc⟩ := hv.exists_eq_cons
  rw [List.append_assoc, hbefore.dropJsonBlanks_append, List.cons_append, List.cons_append,
    dropJsonBlanks_cons hc.notBlank]
  simpa using hc.ne_bracket

/-- Behind the bracket of a list stands no bracket that closes it, if it has items. -/
theorem IsItemsText.head?_dropJsonBlanks {items : List Json} (h : IsItemsText room items s)
    (rest : List Char) : (dropJsonBlanks (s ++ rest)).head? ≠ some ']' := by
  cases h with
  | single h => exact h.head?_dropJsonBlanks rest
  | cons h _ =>
    rw [List.append_assoc]
    exact h.head?_dropJsonBlanks _

theorem IsMemberText.head?_dropJsonBlanks {m : String × Json} (h : IsMemberText room m s)
    (rest : List Char) : (dropJsonBlanks (s ++ rest)).head? = some '"' := by
  obtain ⟨hbefore, -, -, -⟩ := h
  rw [List.append_assoc, hbefore.dropJsonBlanks_append, List.cons_append, dropJsonBlanks_cons rfl]
  rfl

/-- Behind the brace of an object stands a quote, if it has members. -/
theorem IsMembersText.head?_dropJsonBlanks {members : List (String × Json)}
    (h : IsMembersText room members s) (rest : List Char) :
    (dropJsonBlanks (s ++ rest)).head? = some '"' := by
  cases h with
  | single h => exact h.head?_dropJsonBlanks rest
  | cons h _ =>
    rw [List.append_assoc]
    exact h.head?_dropJsonBlanks _

/-- Whatever follows a text, the value `v` is read off its front. As many steps as twice its
length are enough. -/
def ReadsAs (room : Nat) (v : Json) (s : List Char) : Prop :=
  ∀ fuel rest, 2 * s.length ≤ fuel → EndsNumber rest →
    readValue false fuel room (s ++ rest) = .ok (v, rest)

/-- The same for a value with blanks around it. Those behind the value are left. -/
def ElementReadsAs (room : Nat) (v : Json) (s : List Char) : Prop :=
  ∀ fuel rest, 2 * s.length ≤ fuel → EndsNumber rest →
    ∃ after, IsBlankText after ∧ readValue false fuel room (s ++ rest) = .ok (v, after ++ rest)

/-- The items are read off the front of a text up to the closing bracket. -/
def ItemsReadAs (room : Nat) (items : List Json) (s : List Char) : Prop :=
  ∀ fuel rest, 2 * s.length + 1 ≤ fuel →
    readItems false fuel room (s ++ ']' :: rest) = .ok (items, rest)

/-- A member is read off the front of a text, and then what follows it. -/
def MemberReadsAs (room : Nat) (m : String × Json) (s : List Char) : Prop :=
  ∀ fuel rest, 2 * s.length ≤ fuel → EndsNumber rest →
    readMembers false (fuel + 1) room (s ++ rest) =
      match dropJsonBlanks rest with
      | ',' :: s => (readMembers false fuel room s).map fun p => (m :: p.1, p.2)
      | '}' :: s => .ok ([m], s)
      | _ => .error .malformed

/-- The members are read off the front of a text up to the closing brace. -/
def MembersReadAs (room : Nat) (members : List (String × Json)) (s : List Char) : Prop :=
  ∀ fuel rest, 2 * s.length + 1 ≤ fuel →
    readMembers false fuel room (s ++ '}' :: rest) = .ok (members, rest)

variable {v : Json} {items : List Json} {m : String × Json} {members : List (String × Json)}

namespace ReadsAs

/-- It is enough to look at the steps behind the first one. -/
theorem of_succ (hne : s ≠ []) (h : ∀ fuel rest, 2 * s.length ≤ fuel + 1 → EndsNumber rest →
    readValue false (fuel + 1) room (s ++ rest) = .ok (v, rest)) : ReadsAs room v s := by
  intro fuel rest hfuel hrest
  have hlength : 0 < s.length := List.length_pos_iff.2 hne
  obtain ⟨fuel, rfl⟩ : ∃ k, fuel = k + 1 := ⟨fuel - 1, by omega⟩
  exact h fuel rest hfuel hrest

theorem null (room : Nat) : ReadsAs room .null ['n', 'u', 'l', 'l'] := by
  refine of_succ (by simp) fun fuel rest _ _ => ?_
  rw [List.cons_append, readValue, dropJsonBlanks_cons rfl]
  simp [expectWord, Except.map]

theorem bool (room : Nat) (b : Bool) : ReadsAs room (.bool b) (Json.boolText b) := by
  refine of_succ (by cases b <;> simp [Json.boolText]) fun fuel rest _ _ => ?_
  cases b with
  | true =>
    rw [Json.boolText, if_pos rfl, List.cons_append, readValue, dropJsonBlanks_cons rfl]
    simp [expectWord, Except.map]
  | false =>
    rw [Json.boolText, if_neg (by decide), List.cons_append, readValue, dropJsonBlanks_cons rfl]
    simp [expectWord, Except.map]

theorem number (room : Nat) {token : NumberToken} {n : JsonNumber} (hwf : token.WellFormed)
    (hs : token.IsText s) (hn : token.value? = some n) : ReadsAs room (.number n) s := by
  obtain ⟨c, u, rfl, hc⟩ := exists_eq_cons_of_isText hwf hs
  refine of_succ (List.cons_ne_nil c u) fun fuel rest _ hrest => ?_
  rw [List.cons_append, readValue_number hc, ← List.cons_append, readNumber,
    scanNumber_of_isText hwf hs hrest]
  simp only [hn]
  rfl

theorem string (room : Nat) {cs : List Char} (h : IsStringText cs s) :
    ReadsAs room (.string (String.ofList cs)) ('"' :: (s ++ ['"'])) := by
  refine of_succ (List.cons_ne_nil _ _) fun fuel rest _ _ => ?_
  have htext : '"' :: (s ++ ['"']) ++ rest = '"' :: (s ++ '"' :: rest) := by simp
  rw [htext, readValue, dropJsonBlanks_cons rfl]
  simp [readString_of_isStringText h, Except.map]

theorem emptyArray (room : Nat) (h : IsBlankText s) :
    ReadsAs (room + 1) (.array []) ('[' :: (s ++ [']'])) := by
  refine of_succ (List.cons_ne_nil _ _) fun fuel rest _ _ => ?_
  have hclose : dropJsonBlanks (s ++ ([']'] ++ rest)) = ']' :: rest := by
    rw [h.dropJsonBlanks_append]
    exact dropJsonBlanks_cons rfl
  rw [List.cons_append, List.append_assoc, readValue, dropJsonBlanks_cons rfl]
  simp only [hclose]
  rfl

theorem emptyObject (room : Nat) (h : IsBlankText s) :
    ReadsAs (room + 1) (.object []) ('{' :: (s ++ ['}'])) := by
  refine of_succ (List.cons_ne_nil _ _) fun fuel rest _ _ => ?_
  have hclose : dropJsonBlanks (s ++ (['}'] ++ rest)) = '}' :: rest := by
    rw [h.dropJsonBlanks_append]
    exact dropJsonBlanks_cons rfl
  rw [List.cons_append, List.append_assoc, readValue, dropJsonBlanks_cons rfl]
  simp only [hclose]
  rfl

theorem array (hhead : ∀ rest, (dropJsonBlanks (s ++ rest)).head? ≠ some ']')
    (h : ItemsReadAs room items s) : ReadsAs (room + 1) (.array items) ('[' :: (s ++ [']'])) := by
  refine of_succ (List.cons_ne_nil _ _) fun fuel rest hfuel _ => ?_
  simp only [List.length_cons, List.length_append] at hfuel
  rw [List.cons_append, List.append_assoc, readValue_bracket (hhead _)]
  simp only [List.singleton_append, h fuel rest (by omega)]
  rfl

theorem object (hhead : ∀ rest, (dropJsonBlanks (s ++ rest)).head? = some '"')
    (h : MembersReadAs room members s) :
    ReadsAs (room + 1) (.object members) ('{' :: (s ++ ['}'])) := by
  refine of_succ (List.cons_ne_nil _ _) fun fuel rest hfuel _ => ?_
  simp only [List.length_cons, List.length_append] at hfuel
  rw [List.cons_append, List.append_assoc, readValue_brace (by rw [hhead]; decide)]
  simp only [List.singleton_append, h fuel rest (by omega)]
  rfl

end ReadsAs

theorem ElementReadsAs.blanks {before after : List Char} (hbefore : IsBlankText before)
    (h : ReadsAs room v s) (hafter : IsBlankText after) :
    ElementReadsAs room v (before ++ (s ++ after)) := by
  intro fuel rest hfuel hrest
  simp only [List.length_append] at hfuel
  refine ⟨after, hafter, ?_⟩
  rw [List.append_assoc, readValue_congr _ _ _ (hbefore.dropJsonBlanks_append _),
    List.append_assoc]
  exact h fuel (after ++ rest) (by omega) (hafter.endsNumber_append hrest)

namespace ItemsReadAs

/-- An item is read, and then what follows it. -/
theorem readItems_succ (h : ElementReadsAs room v s) {fuel : Nat} (hfuel : 2 * s.length ≤ fuel)
    (hrest : EndsNumber rest) :
    readItems false (fuel + 1) room (s ++ rest) =
      match dropJsonBlanks rest with
      | ',' :: s => (readItems false fuel room s).map fun p => (v :: p.1, p.2)
      | ']' :: s => .ok ([v], s)
      | _ => .error .malformed := by
  obtain ⟨after, hafter, hread⟩ := h fuel rest hfuel hrest
  rw [readItems, hread, ← hafter.dropJsonBlanks_append rest]
  rfl

theorem single (h : ElementReadsAs room v s) : ItemsReadAs room [v] s := by
  intro fuel rest hfuel
  obtain ⟨fuel, rfl⟩ : ∃ k, fuel = k + 1 := ⟨fuel - 1, by omega⟩
  rw [readItems_succ h (by omega) (endsNumber_cons rfl (by decide)), dropJsonBlanks_cons rfl]
  rfl

theorem cons (h : ElementReadsAs room v s) (hitems : ItemsReadAs room items t) :
    ItemsReadAs room (v :: items) (s ++ ',' :: t) := by
  intro fuel rest hfuel
  obtain ⟨fuel, rfl⟩ : ∃ k, fuel = k + 1 := ⟨fuel - 1, by omega⟩
  simp only [List.length_append, List.length_cons] at hfuel
  rw [List.append_assoc, List.cons_append,
    readItems_succ h (by omega) (endsNumber_cons rfl (by decide)), dropJsonBlanks_cons rfl]
  simp only [hitems fuel rest (by omega)]
  rfl

end ItemsReadAs

theorem MemberReadsAs.named {before cs name after : List Char} (hbefore : IsBlankText before)
    (hname : IsStringText cs name) (hafter : IsBlankText after) (h : ElementReadsAs room v s) :
    MemberReadsAs room (String.ofList cs, v)
      (before ++ '"' :: (name ++ '"' :: (after ++ ':' :: s))) := by
  intro fuel rest hfuel hrest
  simp only [List.length_append, List.length_cons] at hfuel
  obtain ⟨blanks, hblanks, hread⟩ := h fuel rest (by omega) hrest
  have hcolon : dropJsonBlanks (after ++ ':' :: s ++ rest) = ':' :: (s ++ rest) := by
    rw [List.append_assoc, hafter.dropJsonBlanks_append]
    exact dropJsonBlanks_cons rfl
  have htext : before ++ '"' :: (name ++ '"' :: (after ++ ':' :: s)) ++ rest =
      before ++ '"' :: (name ++ '"' :: (after ++ ':' :: s ++ rest)) := by simp
  rw [htext, readMembers_congr _ _ _ (hbefore.dropJsonBlanks_append _), readMembers,
    dropJsonBlanks_cons rfl]
  show (readString false _ >>= _) = _
  rw [readString_of_isStringText hname]
  dsimp only [bind, Except.bind]
  rw [hcolon]
  show (readValue false fuel room _ >>= _) = _
  rw [hread, ← hblanks.dropJsonBlanks_append rest]
  rfl

namespace MembersReadAs

theorem single (h : MemberReadsAs room m s) : MembersReadAs room [m] s := by
  intro fuel rest hfuel
  obtain ⟨fuel, rfl⟩ : ∃ k, fuel = k + 1 := ⟨fuel - 1, by omega⟩
  rw [h fuel _ (by omega) (endsNumber_cons rfl (by decide)), dropJsonBlanks_cons rfl]
  rfl

theorem cons (h : MemberReadsAs room m s) (hmembers : MembersReadAs room members t) :
    MembersReadAs room (m :: members) (s ++ ',' :: t) := by
  intro fuel rest hfuel
  obtain ⟨fuel, rfl⟩ : ∃ k, fuel = k + 1 := ⟨fuel - 1, by omega⟩
  simp only [List.length_append, List.length_cons] at hfuel
  rw [List.append_assoc, List.cons_append,
    h fuel _ (by omega) (endsNumber_cons rfl (by decide)), dropJsonBlanks_cons rfl]
  simp only [hmembers fuel rest (by omega)]
  rfl

end MembersReadAs

mutual

/-- **A value is read**, however it is written and whatever follows. -/
theorem IsValueText.readsAs : ∀ {room : Nat} {v : Json} {s : List Char},
    IsValueText room v s → ReadsAs room v s
  | _, _, _, .null room => .null room
  | _, _, _, .bool room b => .bool room b
  | _, _, _, .number room hwf hs hn => .number room hwf hs hn
  | _, _, _, .string room h => .string room h
  | _, _, _, .emptyArray h => .emptyArray _ h
  | _, _, _, .array h => .array h.head?_dropJsonBlanks h.readsAs
  | _, _, _, .emptyObject h => .emptyObject _ h
  | _, _, _, .object h => .object h.head?_dropJsonBlanks h.readsAs

theorem IsElementText.readsAs : ∀ {room : Nat} {v : Json} {s : List Char},
    IsElementText room v s → ElementReadsAs room v s
  | _, _, _, .blanks hbefore h hafter => .blanks hbefore h.readsAs hafter

theorem IsItemsText.readsAs : ∀ {room : Nat} {items : List Json} {s : List Char},
    IsItemsText room items s → ItemsReadAs room items s
  | _, _, _, .single h => .single h.readsAs
  | _, _, _, .cons h hitems => .cons h.readsAs hitems.readsAs

theorem IsMemberText.readsAs : ∀ {room : Nat} {m : String × Json} {s : List Char},
    IsMemberText room m s → MemberReadsAs room m s
  | _, _, _, .named hbefore hname hafter h => .named hbefore hname hafter h.readsAs

theorem IsMembersText.readsAs : ∀ {room : Nat} {members : List (String × Json)} {s : List Char},
    IsMembersText room members s → MembersReadAs room members s
  | _, _, _, .single h => .single h.readsAs
  | _, _, _, .cons h hmembers => .cons h.readsAs hmembers.readsAs

end

/-- **The value of a document is read**, however it is written. -/
theorem readJson_of_isElementText (h : IsElementText room v s) :
    ∃ after, IsBlankText after ∧ readJson room s = .ok (v, after) := by
  obtain ⟨after, hafter, hread⟩ := h.readsAs (2 * s.length + 2) [] (by omega) endsNumber_nil
  rw [List.append_nil, List.append_nil] at hread
  exact ⟨after, hafter, hread⟩

end ModuleRecovery
