import ModuleRecovery.Dot.Dendrogram
import ModuleRecovery.Proofs.Clustering.Dendrogram
import ModuleRecovery.Proofs.Decimal.Layout
import ModuleRecovery.Proofs.Dot.Label

set_option relaxedAutoImplicit false
set_option autoImplicit false

/-!
# Drawings of dendrograms have the shape of the dendrogram

The nodes of a dendrogram are numbered in the order in which they are listed, a node before the
nodes below it, and the nodes below a node stand in one block behind it. So the left child of a
node has the next number, and the right child the next one after the block of the left child. A
drawing has one statement for every node, in order of the numbers, and two edges for every merge.

## Main definitions

* `ModuleRecovery.nodeStatement` — the statement of a numbered node.
* `ModuleRecovery.childEdges` — the edges from a numbered node to its children.
* `ModuleRecovery.IsColorOf` — the colour of the first module that contains an item.

## Main results

* `ModuleRecovery.Dendrogram.nodes_prefix_drop` — the nodes below a node stand in one block.
* `ModuleRecovery.Dendrogram.getElem?_nodes_children` — where the children of a node stand.
* `ModuleRecovery.filter_treeStatements`, `ModuleRecovery.edges_treeStatements` — the statements of
  the nodes, and those of the edges.
* `ModuleRecovery.isColorOf_colorOf` — the colours of the leaves.
* `ModuleRecovery.drawDendrogram_shape` — the drawing of a dendrogram.
-/

universe u

namespace ModuleRecovery

/-! ## Numbered nodes -/

namespace Dendrogram

variable {α : Type u} {t u l r : Dendrogram α} {i : Nat}

theorem nodes_eq_cons (t : Dendrogram α) : ∃ below, t.nodes = t :: below := by
  cases t with
  | leaf a => exact ⟨[], rfl⟩
  | internal l r h ms => exact ⟨l.nodes ++ r.nodes, rfl⟩

/-- **The nodes of a subtree stand in one block**, which its root begins. -/
theorem nodes_prefix_drop (h : t.nodes[i]? = some u) : u.nodes <+: t.nodes.drop i := by
  induction t generalizing i with
  | leaf a =>
    cases i with
    | zero =>
      obtain rfl : leaf a = u := Option.some.inj h
      exact List.prefix_rfl
    | succ i => simp [nodes] at h
  | internal l r height ms ihl ihr =>
    cases i with
    | zero =>
      obtain rfl : internal l r height ms = u := Option.some.inj h
      exact List.prefix_rfl
    | succ i =>
      rw [nodes, List.getElem?_cons_succ] at h
      rw [nodes, List.drop_succ_cons]
      rcases Nat.lt_or_ge i l.nodes.length with hi | hi
      · rw [List.getElem?_append_left hi] at h
        rw [List.drop_append_of_le_length (Nat.le_of_lt hi)]
        exact (ihl h).trans (List.prefix_append _ _)
      · rw [List.getElem?_append_right hi] at h
        rw [List.drop_append, List.drop_eq_nil_of_le hi, List.nil_append]
        exact ihr h

/-- **Where the children of a node stand**: the left one next, and the right one behind the block
of the left one. -/
theorem getElem?_nodes_children {height : Float} {ms : List α}
    (h : t.nodes[i]? = some (internal l r height ms)) :
    t.nodes[i + 1]? = some l ∧ t.nodes[i + 1 + l.nodes.length]? = some r := by
  obtain ⟨behind, hbehind⟩ := nodes_prefix_drop h
  obtain ⟨belowLeft, hleft⟩ := nodes_eq_cons l
  obtain ⟨belowRight, hright⟩ := nodes_eq_cons r
  have hget : ∀ k, t.nodes[i + k]? =
      (internal l r height ms :: (l.nodes ++ r.nodes ++ behind))[k]? := by
    intro k
    rw [← List.getElem?_drop, ← hbehind]
    rfl
  refine ⟨?_, ?_⟩
  · rw [hget 1, hleft]
    rfl
  · rw [Nat.add_assoc, hget, Nat.add_comm, List.getElem?_cons_succ, List.append_assoc,
      List.getElem?_append_right (Nat.le_refl _), Nat.sub_self, hright]
    rfl

/-- A dendrogram has one node less than twice as many as leaves. -/
theorem length_nodes_add_one (t : Dendrogram α) : t.nodes.length + 1 = 2 * t.leaves.length := by
  induction t with
  | leaf a => rfl
  | internal l r h ms ihl ihr =>
    rw [nodes, leaves, List.length_cons, List.length_append, List.length_append]
    omega

end Dendrogram

/-! ## Statements -/

namespace TreeStatement

/-- The number of the node that a statement is about; none if it is an edge. -/
def number? : TreeStatement → Option Nat
  | .item number _ _ => some number
  | .merge number _ => some number
  | .edge _ _ => none

/-- The numbers that an edge leads from and to; none if the statement is about a node. -/
def edge? : TreeStatement → Option (Nat × Nat)
  | .item _ _ _ => none
  | .merge _ _ => none
  | .edge parent child => some (parent, child)

end TreeStatement

open Dendrogram

/-- The statement of a node with its number: a leaf shows its item in the colour of the item, and a
merge its height. -/
def nodeStatement (color : String → String) : Dendrogram String × Nat → TreeStatement
  | (.leaf item, number) => .item number item (color item)
  | (.internal _ _ height _, number) => .merge number height

/-- The edges from a node with its number to its children. -/
def childEdges : Dendrogram String × Nat → List (Nat × Nat)
  | (.leaf _, _) => []
  | (.internal left _ _ _, number) =>
    [(number, number + 1), (number, number + 1 + left.nodes.length)]

variable (color : String → String)

/-- The next free number is behind those of the nodes. -/
theorem snd_treeStatements (t : Dendrogram String) (next : Nat) :
    (treeStatements color t next).2 = next + t.nodes.length := by
  induction t generalizing next with
  | leaf item => rfl
  | internal l r height ms ihl ihr =>
    rw [treeStatements]
    simp only [ihl, ihr, nodes, List.length_cons, List.length_append]
    omega

/-- The statements of a merge: its own, those of its sides, and its edges. -/
theorem fst_treeStatements_internal (l r : Dendrogram String) (height : Float) (ms : List String)
    (next : Nat) :
    (treeStatements color (.internal l r height ms) next).1 =
      .merge next height :: ((treeStatements color l (next + 1)).1 ++
        ((treeStatements color r (next + 1 + l.nodes.length)).1 ++
          [.edge next (next + 1), .edge next (next + 1 + l.nodes.length)])) := by
  rw [treeStatements]
  simp only [snd_treeStatements, List.cons_append, List.append_assoc]

/-- **The statements of the nodes**, in order of their numbers. -/
theorem filter_treeStatements (t : Dendrogram String) (next : Nat) :
    (treeStatements color t next).1.filter (·.number?.isSome) =
      (t.nodes.zipIdx next).map (nodeStatement color) := by
  induction t generalizing next with
  | leaf item => rfl
  | internal l r height ms ihl ihr =>
    have hedges : [TreeStatement.edge next (next + 1),
        .edge next (next + 1 + l.nodes.length)].filter (·.number?.isSome) = [] := rfl
    rw [fst_treeStatements_internal, nodes, List.zipIdx_cons, List.zipIdx_append,
      List.filter_cons_of_pos rfl, List.filter_append, List.filter_append, ihl, ihr, hedges,
      List.append_nil, List.map_cons, List.map_append]
    rfl

/-- **The edges lead from every merge to its two children.** -/
theorem edges_treeStatements (t : Dendrogram String) (next : Nat) :
    ((treeStatements color t next).1.filterMap TreeStatement.edge?).Perm
      ((t.nodes.zipIdx next).flatMap childEdges) := by
  induction t generalizing next with
  | leaf item => exact .refl _
  | internal l r height ms ihl ihr =>
    rw [fst_treeStatements_internal, nodes, List.zipIdx_cons, List.zipIdx_append]
    simp only [List.filterMap_cons, List.filterMap_append, List.filterMap_nil, TreeStatement.edge?,
      List.flatMap_cons, List.flatMap_append, childEdges]
    -- the edges of the merge come behind those below it
    rw [← List.append_assoc]
    exact List.perm_append_comm.trans (((ihl _).append (ihr _)).append_left _)

theorem length_flatMap_childEdges (t : Dendrogram String) (next : Nat) :
    ((t.nodes.zipIdx next).flatMap childEdges).length = 2 * (t.leaves.length - 1) := by
  have hmerges : ∀ next, ((t.nodes.zipIdx next).flatMap childEdges).length = 2 * t.mergeCount := by
    induction t with
    | leaf item => exact fun _ => rfl
    | internal l r height ms ihl ihr =>
      intro next
      rw [nodes, List.zipIdx_cons, List.zipIdx_append, List.flatMap_cons, List.flatMap_append,
        List.length_append, List.length_append, ihl, ihr, mergeCount]
      show 2 + _ = _
      omega
  rw [hmerges, ← mergeCount_add_one, Nat.add_sub_cancel]

/-- **The nodes are numbered without a gap**, in increasing order. -/
theorem numbers_treeStatements (t : Dendrogram String) :
    (treeStatements color t 0).1.filterMap TreeStatement.number? =
      List.range (2 * t.leaves.length - 1) := by
  have hfilter : (treeStatements color t 0).1.filterMap TreeStatement.number? =
      ((treeStatements color t 0).1.filter (·.number?.isSome)).filterMap
        TreeStatement.number? := by
    rw [List.filterMap_filter]
    refine List.filterMap_congr fun s _ => ?_
    cases s <;> rfl
  have hnumber : TreeStatement.number? ∘ nodeStatement color = some ∘ Prod.snd := by
    funext ⟨t, i⟩
    cases t <;> rfl
  have hlen := length_nodes_add_one t
  rw [hfilter, filter_treeStatements, List.filterMap_map, hnumber, List.filterMap_eq_map,
    List.zipIdx_map_snd, List.range_eq_range']
  congr 1
  omega

/-! ## Lines -/

/-- **Different numbers have different names.** -/
theorem nodeName_injective : Function.Injective TreeStatement.nodeName := by
  intro m n h
  rw [TreeStatement.nodeName, TreeStatement.nodeName, String.append_right_inj,
    String.ofList_inj] at h
  have hread : ∀ k, (10).ofDigitChars (decimalDigits k) 0 = k := fun k =>
    Nat.ofDigitChars_toDigits (by decide) (by decide)
  rw [← hread m, h, hread]

theorem not_mem_decimalDigits (n : Nat) : '\n' ∉ decimalDigits n := by
  intro h
  exact absurd (isDigit_of_mem_decimalDigits _ h) (by decide)

@[simp] theorem oneLine_nodeName (number : Nat) : OneLine (TreeStatement.nodeName number) := by
  have hletter : OneLine "n" := by decide
  rw [TreeStatement.nodeName, oneLine_append]
  exact ⟨hletter, by simpa [OneLine] using not_mem_decimalDigits number⟩

@[simp] theorem oneLine_fixedPlaces (places : Nat) (x : Float) :
    OneLine (fixedPlaces places x) := by
  have hsign : ∀ negative, '\n' ∉ signText negative := by decide
  unfold fixedPlaces
  split
  · decide
  · next negative _ => cases negative <;> decide
  · next negative significand exponent _ =>
    rw [OneLine, String.toList_ofList]
    generalize roundDiv _ _ = scaled
    have hpadded : ∀ zeros, '\n' ∉ List.replicate zeros '0' ++ decimalDigits scaled := by
      intro zeros h
      rcases List.mem_append.1 h with h | h
      · exact absurd (List.eq_of_mem_replicate h) (by decide)
      · exact not_mem_decimalDigits scaled h
    intro h
    rcases List.mem_append.1 h with h | h
    · rcases List.mem_append.1 h with h | h
      · exact hsign negative h
      · exact hpadded _ (List.mem_of_mem_take h)
    · rcases List.mem_cons.1 h with h | h
      · exact absurd h (by decide)
      · exact hpadded _ (List.mem_of_mem_drop h)

/-- The colour of an item: that of the first module that contains it, where the colours are taken
in turn, or the colour of what belongs to no module. -/
inductive IsColorOf (partition : Option (Partition String)) (item : String) : String → Prop
  /-- The item belongs to a module, and to none before it. -/
  | assigned {p : Partition String} {m : Module String} {i : Nat} {color : String}
      (hpartition : partition = some p) (hmodule : p.modules[i]? = some m)
      (hitem : item ∈ m.members)
      (hfirst : ∀ j < i, ∀ m', p.modules[j]? = some m' → item ∉ m'.members)
      (hcolor : moduleColors[i % moduleColors.length]? = some color) :
      IsColorOf partition item color
  /-- The item belongs to no module. -/
  | unassigned (h : ∀ p, partition = some p → ∀ m ∈ p.modules, item ∉ m.members) :
      IsColorOf partition item unassignedColor

theorem getElem?_moduleColors (i : Nat) :
    moduleColors[i % moduleColors.length]? = some (moduleColor i) := by
  have hlt : i % moduleColors.length < moduleColors.length := Nat.mod_lt _ (by decide)
  rw [moduleColor, List.getElem?_eq_getElem hlt]
  rfl

/-- **A leaf has the colour of the first module that contains its item.** -/
theorem isColorOf_colorOf (partition : Option (Partition String)) (item : String) :
    IsColorOf partition item (colorOf partition item) := by
  unfold colorOf
  cases partition with
  | none => exact .unassigned nofun
  | some p =>
    rw [Option.bind_some]
    cases hmodule : p.moduleOf? item with
    | none =>
      refine .unassigned ?_
      rintro q heq m hm
      obtain rfl := Option.some.inj heq
      exact of_decide_eq_false (List.findIdx?_eq_none_iff.1 hmodule m hm)
    | some i =>
      obtain ⟨hi, hitem, hfirst⟩ := List.findIdx?_eq_some_iff_getElem.1 hmodule
      refine .assigned rfl (List.getElem?_eq_getElem hi) (of_decide_eq_true hitem) ?_
        (getElem?_moduleColors i)
      intro j hj m' hm'
      obtain ⟨-, rfl⟩ := List.getElem?_eq_some_iff.1 hm'
      simpa using hfirst j hj

theorem oneLine_colorOf (partition : Option (Partition String)) (item : String) :
    OneLine (colorOf partition item) := by
  have hcolors : ∀ color ∈ unassignedColor :: moduleColors, OneLine color := by decide
  have hcolor := isColorOf_colorOf partition item
  generalize colorOf partition item = color at hcolor ⊢
  refine hcolors color ?_
  cases hcolor with
  | assigned _ _ _ _ hcolor => exact List.mem_cons_of_mem _ (List.mem_of_getElem? hcolor)
  | unassigned _ => exact List.mem_cons_self

/-- **A statement never leaves its line.** -/
theorem oneLine_line {s : TreeStatement} {t : Dendrogram String} {next : Nat}
    (hcolor : ∀ item, OneLine (color item)) (h : s ∈ (treeStatements color t next).1) :
    OneLine s.line := by
  have htexts : OneLine "    " ∧ OneLine " [label=" ∧
      OneLine ", shape=box, style=filled, fillcolor=\"" ∧ OneLine "\"];" ∧
      OneLine " [label=\"" ∧ OneLine "\", shape=circle];" ∧ OneLine " -> " ∧ OneLine ";" := by
    decide
  induction t generalizing next with
  | leaf item =>
    obtain rfl : s = .item next item (color item) := List.mem_singleton.1 h
    simp [TreeStatement.line, htexts, hcolor]
  | internal l r height ms ihl ihr =>
    rw [fst_treeStatements_internal, List.mem_cons, List.mem_append, List.mem_append,
      List.mem_pair] at h
    rcases h with rfl | h | h | rfl | rfl
    · simp [TreeStatement.line, htexts]
    · exact ihl h
    · exact ihr h
    · simp [TreeStatement.line, htexts]
    · simp [TreeStatement.line, htexts]

/-- The lines of the drawing are the statements, one each, between its first lines and its last. -/
theorem textLines_drawDendrogram (root : Dendrogram String)
    (partition : Option (Partition String)) :
    textLines (drawDendrogram root partition) =
      ["digraph Dendrogram \x7b",
        "    rankdir=TB;",
        "    node [fontname=\"Helvetica\", fontsize=12];",
        ""] ++ (treeStatements (colorOf partition) root 0).1.map TreeStatement.line ++
      ["\x7d"] := by
  refine textLines_joinLines (by simp) fun line hline => ?_
  rw [List.append_assoc, List.mem_append, List.mem_append, List.mem_map] at hline
  rcases hline with hline | ⟨s, hs, rfl⟩ | hline
  · revert line
    decide
  · exact oneLine_line _ (oneLine_colorOf partition) hs
  · revert line
    decide

/-- **The drawing of a dendrogram has the shape of the dendrogram.** Its lines are, between the
first lines and the last, one statement for each node and each edge. The statements of the nodes
come in the order in which the nodes are listed, each before the nodes below it, and have the
numbers from zero up, without a gap; different numbers have different names. A leaf has the colour
of the first module that contains its item, or that of what belongs to no module. With `L` leaves
there are `2 * L - 1` nodes and `2 * (L - 1)` edges: one from every merge to each of its children,
where the left child has the next number, and the right one the next after the nodes of the left
subtree.

**Proof sketch.** The next free number after a subtree is behind the numbers of its nodes, so the
statements of the nodes follow the list of the nodes; and a subtree is one block of this list. -/
theorem drawDendrogram_shape (root : Dendrogram String) (partition : Option (Partition String)) :
    ∃ statements : List TreeStatement,
      textLines (drawDendrogram root partition) =
        ["digraph Dendrogram \x7b",
          "    rankdir=TB;",
          "    node [fontname=\"Helvetica\", fontsize=12];",
          ""] ++ statements.map TreeStatement.line ++ ["\x7d"] ∧
      (statements.filter (·.number?.isSome) =
          root.nodes.zipIdx.map (nodeStatement (colorOf partition)) ∧
        statements.filterMap TreeStatement.number? = List.range (2 * root.leaves.length - 1) ∧
        Function.Injective TreeStatement.nodeName ∧
        ∀ item, IsColorOf partition item (colorOf partition item)) ∧
      ((statements.filterMap TreeStatement.edge?).Perm (root.nodes.zipIdx.flatMap childEdges) ∧
        (statements.filterMap TreeStatement.edge?).length = 2 * (root.leaves.length - 1) ∧
        ∀ i l r height ms, root.nodes[i]? = some (.internal l r height ms) →
          root.nodes[i + 1]? = some l ∧ root.nodes[i + 1 + l.nodes.length]? = some r) := by
  have hedges := edges_treeStatements (colorOf partition) root 0
  refine ⟨(treeStatements (colorOf partition) root 0).1, textLines_drawDendrogram root partition,
    ⟨filter_treeStatements _ root 0, numbers_treeStatements _ root, nodeName_injective,
      isColorOf_colorOf partition⟩,
    hedges, ?_, fun i l r height ms h => getElem?_nodes_children h⟩
  rw [hedges.length_eq, length_flatMap_childEdges]

end ModuleRecovery
