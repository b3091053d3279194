import Mathlib.Data.List.Basic
import Mathlib.Data.List.Nodup
import ModuleRecovery.Clustering.Dendrogram

set_option relaxedAutoImplicit false
set_option autoImplicit false

/-!
# Nodes of a dendrogram

The nodes of a dendrogram built by merges hold nested or disjoint sets of items. So any two
different items have exactly one lowest node in common: the merge that brought them together.

## Main definitions

* `ModuleRecovery.Dendrogram.nodes` — all nodes of a dendrogram.
* `ModuleRecovery.Dendrogram.AllMerges` — a property of all merges.
* `ModuleRecovery.Dendrogram.IsLowestJoin` — the lowest merge that contains two items.

## Main results

* `ModuleRecovery.Dendrogram.mergeCount_add_one` — there is one merge less than leaves.
* `ModuleRecovery.Dendrogram.exists_unique_lowestJoin` — the lowest merge exists, and its
  children separate the two items.
-/

universe u

namespace ModuleRecovery.Dendrogram

variable {α : Type u} {l r t u : Dendrogram α} {h : Float} {x y : α}

/-- The nodes of a dendrogram, each before the nodes below it. -/
def nodes : Dendrogram α → List (Dendrogram α)
  | leaf a => [leaf a]
  | internal l r h ms => internal l r h ms :: (l.nodes ++ r.nodes)

/-- All merges of a dendrogram, given by their children and their height, have a property. -/
def AllMerges (P : Dendrogram α → Dendrogram α → Float → Prop) : Dendrogram α → Prop
  | leaf _ => True
  | internal l r h _ => P l r h ∧ l.AllMerges P ∧ r.AllMerges P

/-- A merge that contains two items, such that no node below it contains both. -/
structure IsLowestJoin (root : Dendrogram α) (x y : α) (t : Dendrogram α) : Prop where
  /-- The merge is a node of the dendrogram. -/
  mem_nodes : t ∈ root.nodes
  /-- It is no single item. -/
  not_isLeaf : t.isLeaf = false
  /-- It contains the first item. -/
  left_mem : x ∈ t.members
  /-- It contains the second item. -/
  right_mem : y ∈ t.members
  /-- No node below it contains both. -/
  lowest : ∀ l r, t.children? = some (l, r) →
    ∀ u ∈ l.nodes ++ r.nodes, ¬ (x ∈ u.members ∧ y ∈ u.members)

@[simp] theorem members_merge : (l.merge r h).members = l.members ++ r.members := rfl

theorem mem_nodes_leaf {a : α} : u ∈ (leaf a).nodes ↔ u = leaf a :=
  List.mem_singleton

theorem mem_nodes_merge :
    u ∈ (l.merge r h).nodes ↔ u = l.merge r h ∨ u ∈ l.nodes ∨ u ∈ r.nodes := by
  rw [merge, nodes, List.mem_cons, List.mem_append]

theorem self_mem_nodes (t : Dendrogram α) : t ∈ t.nodes := by
  cases t with
  | leaf a => exact mem_nodes_leaf.2 rfl
  | internal l r h ms => exact List.mem_cons_self

theorem children?_eq_some_iff :
    t.children? = some (l, r) ↔ ∃ height ms, t = internal l r height ms := by
  cases t with
  | leaf a => simp [children?]
  | internal l' r' height ms => simp [children?]

/-- What holds of all merges holds of all merges below a node. -/
theorem AllMerges.allMerges_of_mem_nodes {P : Dendrogram α → Dendrogram α → Float → Prop}
    (ht : t.AllMerges P) (hu : u ∈ t.nodes) : u.AllMerges P := by
  induction t with
  | leaf a =>
    rw [mem_nodes_leaf.1 hu]
    exact ht
  | internal l r h ms ihl ihr =>
    rw [nodes, List.mem_cons, List.mem_append] at hu
    rcases hu with rfl | hu | hu
    · exact ht
    · exact ihl ht.2.1 hu
    · exact ihr ht.2.2 hu

/-- What holds of all merges holds of every node that is a merge. -/
theorem AllMerges.of_mem_nodes {P : Dendrogram α → Dendrogram α → Float → Prop}
    (ht : t.AllMerges P) (hu : u ∈ t.nodes) (hc : u.children? = some (l, r)) : P l r u.height := by
  obtain ⟨h, ms, rfl⟩ := children?_eq_some_iff.1 hc
  exact (ht.allMerges_of_mem_nodes hu).1

/-- The items of a node below another are among the items of that node, in the same order. -/
theorem members_sublist_of_mem_nodes (ht : t.MergeBuilt) (hu : u ∈ t.nodes) :
    u.members.Sublist t.members := by
  induction ht with
  | leaf a =>
    rw [mem_nodes_leaf.1 hu]
  | @merge l r h _ _ ihl ihr =>
    rcases mem_nodes_merge.1 hu with rfl | hu | hu
    · exact List.Sublist.refl _
    · exact (ihl hu).trans (List.sublist_append_left _ _)
    · exact (ihr hu).trans (List.sublist_append_right _ _)

theorem members_subset_of_mem_nodes (ht : t.MergeBuilt) (hu : u ∈ t.nodes) :
    u.members ⊆ t.members :=
  (members_sublist_of_mem_nodes ht hu).subset

/-- The nodes below a child are nodes below its parent. -/
theorem nodes_children_subset (hc : t.children? = some (l, r)) :
    l.nodes ⊆ t.nodes ∧ r.nodes ⊆ t.nodes := by
  obtain ⟨height, ms, rfl⟩ := children?_eq_some_iff.1 hc
  exact ⟨fun u hu => List.mem_cons_of_mem _ (List.mem_append_left _ hu),
    fun u hu => List.mem_cons_of_mem _ (List.mem_append_right _ hu)⟩

/-- A node of a dendrogram built by merges is built by merges. -/
theorem MergeBuilt.of_mem_nodes (ht : t.MergeBuilt) (hu : u ∈ t.nodes) : u.MergeBuilt := by
  induction ht with
  | leaf a =>
    rw [mem_nodes_leaf.1 hu]
    exact .leaf a
  | @merge l r h hl hr ihl ihr =>
    rcases mem_nodes_merge.1 hu with rfl | hu | hu
    · exact .merge h hl hr
    · exact ihl hu
    · exact ihr hu

/-- A merge records the members of its left child, followed by those of its right child. -/
theorem MergeBuilt.members_eq_append (ht : t.MergeBuilt) (hc : t.children? = some (l, r)) :
    t.members = l.members ++ r.members := by
  cases ht with
  | leaf a => cases hc
  | merge h _ _ =>
    obtain ⟨rfl, rfl⟩ := Prod.mk.inj (Option.some.inj hc)
    rfl

/-- A dendrogram has one merge less than leaves. -/
theorem mergeCount_add_one (t : Dendrogram α) : t.mergeCount + 1 = t.leaves.length := by
  induction t with
  | leaf a => rfl
  | internal l r h ms ihl ihr =>
    rw [mergeCount, leaves, List.length_append, ← ihl, ← ihr]
    omega

/-! ## The lowest node of two items -/

theorem IsLowestJoin.symm (ht : IsLowestJoin t x y u) : IsLowestJoin t y x u where
  mem_nodes := ht.mem_nodes
  not_isLeaf := ht.not_isLeaf
  left_mem := ht.right_mem
  right_mem := ht.left_mem
  lowest l r hc u hu := fun h => ht.lowest l r hc u hu h.symm

/-- Two items that a merge separates have it as their lowest node. -/
theorem isLowestJoin_merge_iff (hl : l.MergeBuilt) (hr : r.MergeBuilt)
    (hx : x ∈ l.members) (hy : y ∈ r.members) (hxr : x ∉ r.members) (hyl : y ∉ l.members) :
    IsLowestJoin (l.merge r h) x y u ↔ u = l.merge r h := by
  have hsep : ∀ u ∈ l.nodes ++ r.nodes, ¬ (x ∈ u.members ∧ y ∈ u.members) := by
    rintro u hu ⟨hxu, hyu⟩
    rcases List.mem_append.1 hu with hu | hu
    · exact hyl (members_subset_of_mem_nodes hl hu hyu)
    · exact hxr (members_subset_of_mem_nodes hr hu hxu)
  constructor
  · intro hu
    rcases mem_nodes_merge.1 hu.mem_nodes with heq | hmem
    · exact heq
    · exact absurd ⟨hu.left_mem, hu.right_mem⟩ (hsep u (List.mem_append.2 hmem))
  · rintro rfl
    refine ⟨self_mem_nodes _, rfl, List.mem_append_left _ hx, List.mem_append_right _ hy, ?_⟩
    intro l' r' hc
    cases hc
    exact hsep

/-- Two items on the left of a merge have their lowest node there. -/
theorem isLowestJoin_merge_left (hr : r.MergeBuilt) (hx : x ∈ l.members) (hy : y ∈ l.members)
    (hxr : x ∉ r.members) : IsLowestJoin (l.merge r h) x y u ↔ IsLowestJoin l x y u := by
  constructor
  · intro hu
    refine ⟨?_, hu.not_isLeaf, hu.left_mem, hu.right_mem, hu.lowest⟩
    rcases mem_nodes_merge.1 hu.mem_nodes with rfl | hmem | hmem
    · exact absurd ⟨hx, hy⟩ (hu.lowest l r rfl l (List.mem_append_left _ (self_mem_nodes l)))
    · exact hmem
    · exact absurd (members_subset_of_mem_nodes hr hmem hu.left_mem) hxr
  · intro hu
    exact ⟨mem_nodes_merge.2 (.inr (.inl hu.mem_nodes)), hu.not_isLeaf, hu.left_mem,
      hu.right_mem, hu.lowest⟩

/-- Two items on the right of a merge have their lowest node there. -/
theorem isLowestJoin_merge_right (hl : l.MergeBuilt) (hx : x ∈ r.members) (hy : y ∈ r.members)
    (hxl : x ∉ l.members) : IsLowestJoin (l.merge r h) x y u ↔ IsLowestJoin r x y u := by
  constructor
  · intro hu
    refine ⟨?_, hu.not_isLeaf, hu.left_mem, hu.right_mem, hu.lowest⟩
    rcases mem_nodes_merge.1 hu.mem_nodes with rfl | hmem | hmem
    · exact absurd ⟨hx, hy⟩ (hu.lowest l r rfl r (List.mem_append_right _ (self_mem_nodes r)))
    · exact absurd (members_subset_of_mem_nodes hl hmem hu.left_mem) hxl
    · exact hmem
  · intro hu
    exact ⟨mem_nodes_merge.2 (.inr (.inr hu.mem_nodes)), hu.not_isLeaf, hu.left_mem,
      hu.right_mem, hu.lowest⟩

/-- **Two different items have exactly one lowest node in common**, and its children separate
them.

**Proof sketch.** By induction on the merges. If the last merge separates the two items, it
is their lowest node; otherwise both lie on the same side, and the lowest node is there. -/
theorem exists_unique_lowestJoin (ht : t.MergeBuilt) (hnd : t.members.Nodup)
    (hx : x ∈ t.members) (hy : y ∈ t.members) (hxy : x ≠ y) :
    ∃ (l r : Dendrogram α) (h : Float), l.merge r h ∈ t.nodes ∧
      (∀ u, IsLowestJoin t x y u ↔ u = l.merge r h) ∧
      (x ∈ l.members ∧ y ∈ r.members ∨ y ∈ l.members ∧ x ∈ r.members) := by
  induction ht with
  | leaf a =>
    have hxa : x = a := List.mem_singleton.1 hx
    have hya : y = a := List.mem_singleton.1 hy
    exact absurd (hxa.trans hya.symm) hxy
  | @merge l r h hl hr ihl ihr =>
    obtain ⟨hndl, hndr, hdisj⟩ := List.nodup_append'.1 hnd
    rcases List.mem_append.1 hx with hxl | hxr
    · rcases List.mem_append.1 hy with hyl | hyr
      · obtain ⟨l', r', h', hmem, huniq, hsides⟩ := ihl hndl hxl hyl
        refine ⟨l', r', h', mem_nodes_merge.2 (.inr (.inl hmem)), fun u => ?_, hsides⟩
        rw [isLowestJoin_merge_left hr hxl hyl (hdisj hxl), huniq]
      · refine ⟨l, r, h, self_mem_nodes _, fun u => ?_, .inl ⟨hxl, hyr⟩⟩
        exact isLowestJoin_merge_iff hl hr hxl hyr (hdisj hxl) fun hyl => hdisj hyl hyr
    · rcases List.mem_append.1 hy with hyl | hyr
      · refine ⟨l, r, h, self_mem_nodes _, fun u => ?_, .inr ⟨hyl, hxr⟩⟩
        rw [← isLowestJoin_merge_iff hl hr hyl hxr (hdisj hyl) fun hxl => hdisj hxl hxr]
        exact ⟨IsLowestJoin.symm, IsLowestJoin.symm⟩
      · obtain ⟨l', r', h', hmem, huniq, hsides⟩ := ihr hndr hxr hyr
        refine ⟨l', r', h', mem_nodes_merge.2 (.inr (.inr hmem)), fun u => ?_, hsides⟩
        rw [isLowestJoin_merge_right hl hxr hyr fun hxl => hdisj hxl hxr, huniq]

end ModuleRecovery.Dendrogram
