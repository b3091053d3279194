import Mathlib.Data.List.Basic
import ModuleRecovery.Dot.CallGraph
import ModuleRecovery.Proofs.Dot.Label

set_option relaxedAutoImplicit false
set_option autoImplicit false

/-!
# Drawings of call graphs are unambiguous

Below its first lines, the drawing of a call graph lists the nodes and, after the only empty line,
the edges. Every line holds its labels between quotes, from where they are read back. So a drawing
tells which nodes and which edges were drawn.

## Main definitions

* `ModuleRecovery.callGraphBody` — the lines that depend on the graph.

## Main results

* `ModuleRecovery.nodeLine_injective`, `ModuleRecovery.edgeLine_injective` — a line tells its
  labels.
* `ModuleRecovery.callGraphBody_inj` — the lines tell the nodes and the edges.
* `ModuleRecovery.drawCallGraph_unambiguous` — so does the drawing.
-/

namespace ModuleRecovery

variable {g₁ g₂ : Digraph String}

/-! ## Lines -/

/-- **The line of a node tells its label.** -/
theorem nodeLine_injective : Function.Injective nodeLine := by
  intro label label' h
  simp only [nodeLine, String.append_assoc, String.append_right_inj] at h
  exact (quoted_append_inj h).1

/-- **The line of an edge tells its labels.** -/
theorem edgeLine_injective : Function.Injective edgeLine := by
  rintro ⟨source, target⟩ ⟨source', target'⟩ h
  simp only [edgeLine, String.append_assoc, String.append_right_inj] at h
  obtain ⟨rfl, htargets⟩ := quoted_append_inj h
  obtain ⟨rfl, -⟩ := quoted_append_inj ((String.append_right_inj _).1 htargets)
  rfl

theorem oneLine_nodeLine (label : String) : OneLine (nodeLine label) := by
  have hstyle : OneLine (nodeStyle label).1 ∧ OneLine (nodeStyle label).2 := by
    unfold nodeStyle
    split <;> decide
  have htexts : OneLine "    " ∧ OneLine " [style=\"" ∧ OneLine "\", fillcolor=\"" ∧
      OneLine "\"];" := by decide
  simp [nodeLine, hstyle, htexts]

theorem oneLine_edgeLine (e : String × String) : OneLine (edgeLine e) := by
  have htexts : OneLine "    " ∧ OneLine " -> " ∧ OneLine ";" := by decide
  simp [edgeLine, htexts]

/-- A text that begins with one that is not empty is not empty. -/
theorem append_ne_empty {s : String} (hs : s ≠ "") (t : String) : s ++ t ≠ "" := by
  intro h
  exact hs (String.append_eq_empty_iff.1 h).1

theorem nodeLine_ne_empty (label : String) : nodeLine label ≠ "" := by
  simp only [nodeLine, String.append_assoc]
  exact append_ne_empty (by decide) _

theorem edgeLine_ne_empty (e : String × String) : edgeLine e ≠ "" := by
  simp only [edgeLine, String.append_assoc]
  exact append_ne_empty (by decide) _

/-! ## The drawing -/

/-- The lines of a drawing that depend on the graph. -/
def callGraphBody (g : Digraph String) : List String :=
  g.nodes.toList.map nodeLine ++ "" :: (g.edges.map edgeLine ++ ["\x7d"])

/-- **These lines tell the nodes and the edges**: they part at the only empty line. -/
theorem callGraphBody_inj :
    callGraphBody g₁ = callGraphBody g₂ ↔ g₁.nodes = g₂.nodes ∧ g₁.edges = g₂.edges := by
  have hnodes : ∀ g : Digraph String, "" ∉ g.nodes.toList.map nodeLine := by
    intro g h
    obtain ⟨label, -, hlabel⟩ := List.mem_map.1 h
    exact nodeLine_ne_empty label hlabel
  have hedges : ∀ g : Digraph String, "" ∉ g.edges.map edgeLine ++ ["\x7d"] := by
    intro g h
    rcases List.mem_append.1 h with h | h
    · obtain ⟨e, -, he⟩ := List.mem_map.1 h
      exact edgeLine_ne_empty e he
    · exact absurd h (by decide)
  rw [callGraphBody, callGraphBody,
    List.append_cons_inj_of_notMem (hnodes g₁) (hedges g₁), List.append_left_inj,
    List.map_inj_right fun _ _ h => nodeLine_injective h,
    List.map_inj_right fun _ _ h => edgeLine_injective h, OrderedSet.ext_iff]
  simp

theorem oneLine_of_mem_callGraphBody (g : Digraph String) :
    ∀ line ∈ callGraphBody g, OneLine line := by
  intro line h
  simp only [callGraphBody, List.mem_append, List.mem_map, List.mem_cons, List.not_mem_nil,
    or_false] at h
  rcases h with ⟨label, -, rfl⟩ | rfl | ⟨e, -, rfl⟩ | rfl
  · exact oneLine_nodeLine label
  · decide
  · exact oneLine_edgeLine e
  · decide

theorem textLines_callGraphBody (g : Digraph String) :
    textLines (joinLines (callGraphBody g)) = callGraphBody g :=
  textLines_joinLines (by simp [callGraphBody]) (oneLine_of_mem_callGraphBody g)

/-- A drawing depends on the graph only below its first lines. -/
theorem drawCallGraph_inj (name : String) :
    drawCallGraph name g₁ = drawCallGraph name g₂ ↔ callGraphBody g₁ = callGraphBody g₂ := by
  have hdraw : ∀ g, drawCallGraph name g = joinLines
      (["digraph " ++ name ++ " \x7b",
        "    rankdir=LR;",
        "    node [fontname=\"Helvetica\", fontsize=12, shape=box];",
        "    edge [fontname=\"Helvetica\", fontsize=10];",
        ""] ++ callGraphBody g) := by
    intro g
    rw [drawCallGraph, callGraphBody]
    simp
  constructor
  · intro h
    rw [hdraw, hdraw, joinLines_append (by simp) (by simp [callGraphBody]),
      joinLines_append (by simp) (by simp [callGraphBody]), String.append_right_inj] at h
    rw [← textLines_callGraphBody g₁, h, textLines_callGraphBody]
  · intro h
    rw [hdraw, hdraw, h]

/-- **The drawing of a call graph is unambiguous.** Two graphs are drawn alike under a name exactly
if they have the same nodes and the same edges, in the same order. For this, the escapes of a label
are three replacements, one after the other; they leave no line feed in the label; the label is got
back when they are replaced from left to right by what they stand for; and a label between quotes
ends exactly at its closing quote, whatever follows.

**Proof sketch.** The first lines of both drawings are the same. No line below them has a line feed
inside, so the text tells these lines, and only one of them is empty. A line tells its labels, as
each ends at its closing quote. -/
theorem drawCallGraph_unambiguous :
    (∀ (name : String) (g₁ g₂ : Digraph String),
      drawCallGraph name g₁ = drawCallGraph name g₂ ↔
        g₁.nodes = g₂.nodes ∧ g₁.edges = g₂.edges) ∧
    ∀ label : String,
      (escapeLabel label).toList =
        replaceChar '\n' ['\\', 'n']
          (replaceChar '"' ['\\', '"'] (replaceChar '\\' ['\\', '\\'] label.toList)) ∧
      '\n' ∉ (escapeLabel label).toList ∧
      unescape (escapeLabel label).toList = label.toList ∧
      ∀ rest, readQuoted? ((quoted label).toList ++ rest) =
        some ((escapeLabel label).toList, rest) :=
  ⟨fun name _ _ => (drawCallGraph_inj name).trans callGraphBody_inj, fun label =>
    ⟨toList_escapeLabel label, oneLine_escapeLabel label, unescape_escapeLabel label,
      readQuoted?_quoted label⟩⟩

end ModuleRecovery
