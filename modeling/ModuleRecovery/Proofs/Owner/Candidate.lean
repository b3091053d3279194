import ModuleRecovery.Owner.Candidate
import ModuleRecovery.Proofs.Text.Trim

set_option relaxedAutoImplicit false
set_option autoImplicit false

/-!
# Which owners labels name

A label is printed as the name of an owner, a dot, the name of a method and a list of parameters
in parentheses, and it is read back as a text. Reading finds an owner exactly if the text, without
the blanks around it, can have been printed like that; what stands behind the first parenthesis
does not matter. The owner is found without the blanks around it and with dots for the separators
of nested classes.

## Main results

* `ModuleRecovery.ownerCandidate?_eq_some_iff` — the labels that name an owner.
* `ModuleRecovery.ownerCandidate?_label` — reading takes the printing of a label back.
* `ModuleRecovery.ownerCandidate?_inverts_printing` — both directions.
-/

namespace ModuleRecovery

theorem isBlank_dotted (c : Char) : isBlank (dotted c) = isBlank c := by
  unfold dotted
  split
  next h =>
    rw [h]
    decide
  next => rfl

/-- A dotted character is no separator of nested classes. -/
theorem dotted_ne_dollar (c : Char) : dotted c ≠ '$' := by
  unfold dotted
  split
  next => decide
  next h => exact h

/-- Only a parenthesis is written as one. -/
theorem dotted_eq_paren_iff {c : Char} : dotted c = '(' ↔ c = '(' := by
  unfold dotted
  split
  next h =>
    rw [h]
    decide
  next => rfl

/-- What is left of a text is part of it. -/
theorem mem_of_mem_trim {c : Char} {s : List Char} (h : c ∈ trim s) : c ∈ s :=
  (List.dropWhile_sublist isBlank).subset
    ((List.rdropWhile_prefix isBlank (trimStart s)).subset h)

/-- **The labels that name an owner**: without the blanks around it, such a label is the name of
the owner, a dot, the name of a method, a parenthesis and anything else.

**Proof sketch.** The first parenthesis and the last dot in front of it are the places where the
text is cut. A name that is empty before trimming is empty after it. -/
theorem ownerCandidate?_eq_some_iff {label c : String} :
    ownerCandidate? label = some c ↔ ∃ owner name rest : List Char,
      trim label.toList = owner ++ '.' :: name ++ '(' :: rest ∧ '(' ∉ owner ∧ '.' ∉ name ∧
        '(' ∉ name ∧ trim (owner.map dotted) = c.toList ∧ c ≠ "" := by
  simp only [ownerCandidate?, Option.bind_eq_bind, Option.bind_eq_some_iff, Prod.exists,
    cutFirst_eq_some, cutLast_eq_some]
  constructor
  · rintro ⟨head, rest, ⟨hlabel, hparen⟩, owner, name, ⟨rfl, hdot⟩, h⟩
    rw [List.mem_append, List.mem_cons, not_or, not_or] at hparen
    split at h
    · cases h
    · split at h
      · cases h
      next hne =>
        obtain rfl := Option.some.inj h
        refine ⟨owner, name, rest, hlabel, hparen.1, hdot, hparen.2.2,
          String.toList_ofList.symm, fun hempty => hne ?_⟩
        rw [← String.toList_ofList (l := trim _), hempty]
        rfl
  · rintro ⟨owner, name, rest, hlabel, hparen, hdot, hparen', hc, hne⟩
    have hcne : ¬ trim (owner.map dotted) = [] := by
      rw [hc]
      exact fun hnil => hne (String.toList_eq_nil_iff.1 hnil)
    have howner : ¬ owner = [] := by
      rintro rfl
      exact hcne rfl
    refine ⟨owner ++ '.' :: name, rest, ⟨hlabel, ?_⟩, owner, name, ⟨rfl, hdot⟩, ?_⟩
    · simp [hparen, hparen']
    · rw [if_neg howner, if_neg hcne, hc, String.ofList_toList]

/-- **Reading a label takes its printing back**: the owner is found again, without the blanks
around it and with dots for the separators of nested classes. -/
theorem ownerCandidate?_label {owner name : String} (rest : String)
    (howner : trim owner.toList ≠ []) (hparen : '(' ∉ owner.toList) (hdot : '.' ∉ name.toList)
    (hparen' : '(' ∉ name.toList) :
    ownerCandidate? (owner ++ "." ++ name ++ "(" ++ rest) =
      some (String.ofList ((trim owner.toList).map dotted)) := by
  have htrim : trim (owner ++ "." ++ name ++ "(" ++ rest).toList =
      trimStart owner.toList ++ '.' :: name.toList ++ '(' :: trimEnd rest.toList := by
    have hlist : (owner ++ "." ++ name ++ "(" ++ rest).toList =
        owner.toList ++ ('.' :: name.toList ++ '(' :: rest.toList) := by
      simp
    rw [hlist, trim, trimStart_append (trimStart_ne_nil howner), ← List.append_assoc,
      trimEnd_append_cons (by decide), List.append_assoc]
  have hname : trim ((trimStart owner.toList).map dotted) = (trim owner.toList).map dotted := by
    rw [trim_map isBlank_dotted, trim_trimStart]
  refine ownerCandidate?_eq_some_iff.2 ⟨_, _, _, htrim, fun hmem => ?_, hdot, hparen', ?_, ?_⟩
  · exact hparen ((List.dropWhile_sublist isBlank).subset hmem)
  · rw [hname, String.toList_ofList]
  · intro hempty
    have hnil := congrArg String.toList hempty
    rw [String.toList_ofList] at hnil
    exact howner (List.map_eq_nil_iff.1 hnil)

/-- **Reading a label is the inverse of printing it.** Whatever text stands for the parameters, a
printed label leads back to the name of its owner, without the blanks around it and with dots for
the separators of nested classes, unless the name is all blank. Conversely a label from which an
owner is read looks like a printed one, and the name of the owner that is read is not empty, has
no separator of nested classes and no parenthesis in it, and has no blanks around it. -/
theorem ownerCandidate?_inverts_printing :
    (∀ owner name rest : String, ¬ (∀ d ∈ owner.toList, isBlank d = true) →
      '(' ∉ owner.toList → '.' ∉ name.toList → '(' ∉ name.toList →
        ownerCandidate? (owner ++ "." ++ name ++ "(" ++ rest) =
          some (String.ofList ((trim owner.toList).map dotted))) ∧
    ∀ label c : String, ownerCandidate? label = some c →
      c ≠ "" ∧ '$' ∉ c.toList ∧ '(' ∉ c.toList ∧ trim c.toList = c.toList ∧
        ∃ owner name rest : List Char,
          trim label.toList = owner ++ '.' :: name ++ '(' :: rest ∧ '.' ∉ name ∧ '(' ∉ name ∧
            trim (owner.map dotted) = c.toList := by
  refine ⟨fun owner name rest howner hparen hdot hparen' =>
    ownerCandidate?_label rest (fun hnil => howner (trim_eq_nil_iff.1 hnil)) hparen hdot hparen',
    fun label c h => ?_⟩
  obtain ⟨owner, name, rest, hlabel, hparen, hdot, hparen', hc, hne⟩ :=
    ownerCandidate?_eq_some_iff.1 h
  refine ⟨hne, ?_, ?_, ?_, owner, name, rest, hlabel, hdot, hparen', hc⟩
  · rw [← hc]
    intro hmem
    obtain ⟨d, -, hd⟩ := List.mem_map.1 (mem_of_mem_trim hmem)
    exact dotted_ne_dollar d hd
  · rw [← hc]
    intro hmem
    obtain ⟨d, hd, heq⟩ := List.mem_map.1 (mem_of_mem_trim hmem)
    exact hparen (dotted_eq_paren_iff.1 heq ▸ hd)
  · rw [← hc, trim_trim]

/-- Blanks around the label and its owner are dropped, and the parameters may have dots, dollar
signs and parentheses in them. -/
theorem ownerCandidate?_inverts_printing_nested :
    (¬ (∀ d ∈ " a.Outer$Inner ".toList, isBlank d = true) ∧ '(' ∉ " a.Outer$Inner ".toList ∧
      '.' ∉ "run".toList ∧ '(' ∉ "run".toList ∧
      ownerCandidate? (" a.Outer$Inner " ++ "." ++ "run" ++ "(" ++ "x.Y$Z,f(int)) ") =
        some "a.Outer.Inner") ∧
    ownerCandidate? "..f(" = some "." ∧ trim ".".toList = ".".toList ∧ '$' ∉ ".".toList := by
  have howner : ¬ ∀ d ∈ " a.Outer$Inner ".toList, isBlank d = true := fun hblank =>
    absurd (hblank 'O' (by decide)) (by decide)
  have hparen : '(' ∉ " a.Outer$Inner ".toList := by decide
  have hdot : '.' ∉ "run".toList := by decide
  have hparen' : '(' ∉ "run".toList := by decide
  have hread : ownerCandidate? "..f(" = some "." := by decide
  obtain ⟨hprint, hlabel⟩ := ownerCandidate?_inverts_printing
  obtain ⟨-, hdollar, -, htrim, -⟩ := hlabel _ _ hread
  refine ⟨⟨howner, hparen, hdot, hparen', ?_⟩, hread, htrim, hdollar⟩
  exact (hprint _ _ "x.Y$Z,f(int)) " howner hparen hdot hparen').trans (by decide)

end ModuleRecovery
