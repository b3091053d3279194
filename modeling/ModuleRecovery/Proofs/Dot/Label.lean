import ModuleRecovery.Dot.Label

set_option relaxedAutoImplicit false
set_option autoImplicit false

/-!
# Reading labels and lines of drawings

A drawing is read back in two steps. Its lines are told apart by their line feeds, as no line has
one inside. In a line, a label ends at the first quote that no backslash takes with it, and this is
the quote that was written behind it.

## Main definitions

* `ModuleRecovery.replaceChar` — a text with every occurrence of a character replaced.
* `ModuleRecovery.unescape` — a text with every escape replaced by what it stands for.
* `ModuleRecovery.readQuoted?` — the token between two quotes, and the text behind it.
* `ModuleRecovery.OneLine` — texts without a line feed.
* `ModuleRecovery.textLines` — the lines of a text.

## Main results

* `ModuleRecovery.toList_escapeLabel` — the escapes as three replacements, one after the other.
* `ModuleRecovery.unescape_escapeLabel` — the label is got back from its escapes.
* `ModuleRecovery.readQuoted?_quoted` — a quoted label ends at its closing quote.
* `ModuleRecovery.quoted_append_inj` — so does what follows it.
* `ModuleRecovery.textLines_joinLines` — the lines of a drawing are got back from its text.
-/

namespace ModuleRecovery

/-- A text with every occurrence of a character replaced by another text. -/
def replaceChar (c : Char) (replacement cs : List Char) : List Char :=
  cs.flatMap fun d => if d = c then replacement else [d]

/-- A text with its escapes of a backslash, a quote and a line feed replaced, from left to right,
by what they stand for. -/
def unescape : List Char → List Char
  | '\\' :: '\\' :: cs => '\\' :: unescape cs
  | '\\' :: '"' :: cs => '"' :: unescape cs
  | '\\' :: 'n' :: cs => '\n' :: unescape cs
  | c :: cs => c :: unescape cs
  | [] => []

/-- What is read up to a closing quote, and the text behind that quote. A backslash takes the next
character with it, whatever it is. -/
def readToken? : List Char → Option (List Char × List Char)
  | [] => none
  | '"' :: cs => some ([], cs)
  | '\\' :: c :: cs => (readToken? cs).map (Prod.map ('\\' :: c :: ·) id)
  | c :: cs => (readToken? cs).map (Prod.map (c :: ·) id)

/-- The token that a text starts with, without its quotes, and the text behind the token. -/
def readQuoted? : List Char → Option (List Char × List Char)
  | '"' :: cs => readToken? cs
  | _ => none

/-! ## Escapes -/

/-- Three characters are escaped, and any other one stands for itself. -/
theorem special_or_escapeChar_eq (c : Char) :
    c = '\\' ∨ c = '"' ∨ c = '\n' ∨
      (c ≠ '\\' ∧ c ≠ '"' ∧ c ≠ '\n' ∧ escapeChar c = [c]) := by
  by_cases h₁ : c = '\\'
  · exact .inl h₁
  by_cases h₂ : c = '"'
  · exact .inr (.inl h₂)
  by_cases h₃ : c = '\n'
  · exact .inr (.inr (.inl h₃))
  · exact .inr (.inr (.inr ⟨h₁, h₂, h₃, by simp [escapeChar, h₁, h₂, h₃]⟩))

/-- **The escapes are three replacements, one after the other.** Backslashes come first, so that
those of the other two escapes stay single. -/
theorem toList_escapeLabel (label : String) :
    (escapeLabel label).toList =
      replaceChar '\n' ['\\', 'n']
        (replaceChar '"' ['\\', '"'] (replaceChar '\\' ['\\', '\\'] label.toList)) := by
  rw [escapeLabel, String.toList_ofList]
  simp only [replaceChar, List.flatMap_assoc]
  congr 1
  funext c
  rcases special_or_escapeChar_eq c with rfl | rfl | rfl | ⟨h₁, h₂, h₃, h⟩
  · rfl
  · rfl
  · rfl
  · simp [h, h₁, h₂, h₃]

theorem unescape_escapeChar_append (c : Char) (cs : List Char) :
    unescape (escapeChar c ++ cs) = c :: unescape cs := by
  rcases special_or_escapeChar_eq c with rfl | rfl | rfl | ⟨h, -, -, hc⟩
  · rfl
  · rfl
  · rfl
  · rw [hc, List.singleton_append]
    simp [unescape, h]

/-- **The label is got back from its escapes.** -/
theorem unescape_escapeLabel (label : String) :
    unescape (escapeLabel label).toList = label.toList := by
  rw [escapeLabel, String.toList_ofList]
  induction label.toList with
  | nil => rfl
  | cons c cs ih => rw [List.flatMap_cons, unescape_escapeChar_append, ih]

theorem escapeLabel_injective {label label' : String} (h : escapeLabel label = escapeLabel label') :
    label = label' := by
  rw [← String.toList_inj, ← unescape_escapeLabel label, h, unescape_escapeLabel]

/-! ## Tokens -/

theorem readToken?_escapeChar_append (c : Char) (cs : List Char) :
    readToken? (escapeChar c ++ cs) =
      (readToken? cs).map (Prod.map (escapeChar c ++ ·) id) := by
  rcases special_or_escapeChar_eq c with rfl | rfl | rfl | ⟨h₁, h₂, -, hc⟩
  · rfl
  · rfl
  · rfl
  · rw [hc]
    simp [readToken?, h₁]

/-- An escaped text is read up to the quote behind it. -/
theorem readToken?_escaped (cs rest : List Char) :
    readToken? (cs.flatMap escapeChar ++ '"' :: rest) = some (cs.flatMap escapeChar, rest) := by
  induction cs with
  | nil => rfl
  | cons c cs ih =>
    rw [List.flatMap_cons, List.append_assoc, readToken?_escapeChar_append, ih]
    rfl

/-- **A quoted label ends exactly at its closing quote.** -/
theorem readQuoted?_quoted (label : String) (rest : List Char) :
    readQuoted? ((quoted label).toList ++ rest) = some ((escapeLabel label).toList, rest) := by
  have hquoted : (quoted label).toList ++ rest =
      '"' :: (label.toList.flatMap escapeChar ++ '"' :: rest) := by
    simp [quoted, escapeLabel]
  rw [hquoted, escapeLabel, String.toList_ofList]
  exact readToken?_escaped label.toList rest

-- neither an escaped quote nor an escaped backslash before the closing quote ends the label
example : readQuoted? "\"a\\\"b\\\\\" -> \"c\"".toList =
    some ("a\\\"b\\\\".toList, " -> \"c\"".toList) := by decide

/-- **A quoted label and what follows it are told apart.** -/
theorem quoted_append_inj {label label' s t : String}
    (h : quoted label ++ s = quoted label' ++ t) : label = label' ∧ s = t := by
  have hread := readQuoted?_quoted label s.toList
  rw [← String.toList_append, h, String.toList_append, readQuoted?_quoted, Option.some_inj,
    Prod.mk.injEq, String.toList_inj, String.toList_inj] at hread
  exact ⟨(escapeLabel_injective hread.1).symm, hread.2.symm⟩

/-! ## Lines -/

/-- Texts without a line feed. -/
def OneLine (s : String) : Prop :=
  '\n' ∉ s.toList

instance (s : String) : Decidable (OneLine s) :=
  inferInstanceAs (Decidable ('\n' ∉ s.toList))

/-- The lines of a text. -/
def textLines (s : String) : List String :=
  (s.toList.splitOn '\n').map String.ofList

@[simp] theorem oneLine_append {s t : String} : OneLine (s ++ t) ↔ OneLine s ∧ OneLine t := by
  simp [OneLine, not_or]

/-- **A label never leaves its line.** -/
@[simp] theorem oneLine_escapeLabel (label : String) : OneLine (escapeLabel label) := by
  rw [OneLine, escapeLabel, String.toList_ofList, List.mem_flatMap]
  rintro ⟨c, -, hc⟩
  rcases special_or_escapeChar_eq c with rfl | rfl | rfl | ⟨-, -, hne, heq⟩
  · simp [escapeChar] at hc
  · simp [escapeChar] at hc
  · simp [escapeChar] at hc
  · rw [heq, List.mem_singleton] at hc
    exact hne hc.symm

@[simp] theorem oneLine_quoted (label : String) : OneLine (quoted label) := by
  have hquote : OneLine "\"" := by decide
  simp [quoted, hquote]

/-- **The lines of a drawing are got back from its text.** -/
theorem textLines_joinLines {lines : List String} (hne : lines ≠ [])
    (h : ∀ line ∈ lines, OneLine line) : textLines (joinLines lines) = lines := by
  have hfeed : "\n".toList = ['\n'] := by decide
  have hsplit : (joinLines lines).toList.splitOn '\n' = lines.map String.toList := by
    rw [joinLines, String.toList_intercalate, hfeed]
    refine List.splitOn_intercalate '\n' (fun cs hcs => ?_) (by simpa using hne)
    obtain ⟨line, hline, rfl⟩ := List.mem_map.1 hcs
    exact h line hline
  rw [textLines, hsplit, List.map_map]
  simp [Function.comp_def]

/-- What stands below the first lines of a drawing. -/
theorem joinLines_append {above below : List String} (ha : above ≠ []) (hb : below ≠ []) :
    joinLines (above ++ below) = joinLines above ++ "\n" ++ joinLines below :=
  String.intercalate_append_of_ne_nil ha hb

end ModuleRecovery
