import ModuleRecovery.Text.Blank
import ModuleRecovery.Text.Cut

set_option relaxedAutoImplicit false
set_option autoImplicit false

/-!
# Owners named by labels

A method label such as `shop.Cart.total(int)` names its class only as a part of its text:
what stands before the last dot of the text in front of the first parenthesis. Nested
classes may be separated by a dollar sign, which is read as a dot.

## Main definitions

* `ModuleRecovery.ownerCandidate?` — the class named by a label.
-/

namespace ModuleRecovery

/-- The separator of nested classes, written as a dot. -/
def dotted (c : Char) : Char :=
  if c = '$' then '.' else c

/-- The class named by a label. There is none when the text in front of the first
parenthesis, or the text in front of its last dot, is missing or empty. -/
def ownerCandidate? (label : String) : Option String := do
  let (head, _) ← cutFirst '(' (trim label.toList)
  let (owner, _) ← cutLast '.' head
  if owner = [] then none
  else
    let name := trim (owner.map dotted)
    if name = [] then none else some (String.ofList name)

end ModuleRecovery
