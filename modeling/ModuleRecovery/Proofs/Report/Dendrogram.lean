import ModuleRecovery.Proofs.Clustering.Heights
import ModuleRecovery.Proofs.Report.Reader

set_option relaxedAutoImplicit false
set_option autoImplicit false

/-!
# Reading dendrograms

A dendrogram is written as objects inside one another, so its text is nested as deep as its
longest path has merges. Beyond the limit of the reader such a text is refused, whatever else it
says. Up to the limit every node is read back, and the heights become what is read for them.

## Main definitions

* `ModuleRecovery.Dendrogram.depth` — how many merges the longest path holds.
* `ModuleRecovery.Dendrogram.mapHeights?` — the same merges at other heights.

## Main results

* `ModuleRecovery.decodeTree_toJson` — the dendrogram of the value it is written as.
* `ModuleRecovery.ReadsValue.dendrogram` — the value that is read for a dendrogram.
* `ModuleRecovery.Reads.dendrogram` — reading a dendrogram inside a document.
-/

universe u

namespace ModuleRecovery

namespace Dendrogram

variable {α : Type u} {l r t t' : Dendrogram α} {f : Float → Option Float}

/-- How many merges lie on the longest path from the root to a single item. -/
def depth : Dendrogram α → Nat
  | leaf _ => 0
  | internal l r _ _ => max l.depth r.depth + 1

/-- The same merges at the heights that `f` gives, if it gives one for each. -/
def mapHeights? (f : Float → Option Float) : Dendrogram α → Option (Dendrogram α)
  | leaf a => some (leaf a)
  | internal l r h ms => (f h).bind fun h' =>
    (l.mapHeights? f).bind fun l' => (r.mapHeights? f).map fun r' => internal l' r' h' ms

theorem depth_of_mapHeights?_eq_some (h : t.mapHeights? f = some t') : t'.depth = t.depth := by
  induction t generalizing t' with
  | leaf a =>
    obtain rfl := Option.some.inj h
    rfl
  | internal l r x ms ihl ihr =>
    simp only [mapHeights?, Option.bind_eq_some_iff, Option.map_eq_some_iff] at h
    obtain ⟨y, -, l', hl, r', hr, rfl⟩ := h
    rw [depth, depth, ihl hl, ihr hr]

/-- **Nothing changes exactly when every height stays as it is.** -/
theorem mapHeights?_eq_some_self_iff :
    t.mapHeights? f = some t ↔ ∀ x ∈ t.heights, f x = some x := by
  induction t with
  | leaf a => simp [mapHeights?, heights_leaf]
  | internal l r h ms ihl ihr =>
    simp only [mapHeights?, Option.bind_eq_some_iff, Option.map_eq_some_iff, heights_internal,
      List.forall_mem_cons, List.forall_mem_append, ← ihl, ← ihr]
    constructor
    · rintro ⟨y, hy, l', hl, r', hr, heq⟩
      obtain ⟨rfl, rfl, rfl, -⟩ := internal.inj heq
      exact ⟨hy, hl, hr⟩
    · rintro ⟨hh, hl, hr⟩
      exact ⟨h, hh, l, hl, r, hr, rfl⟩

end Dendrogram

open Json

variable {room level : Nat} {t l r : Dendrogram String}

/-! ## The value of a dendrogram -/

theorem stringsOf?_ofStrings (l : List String) : stringsOf? (.ofStrings l) = some l := by
  rw [ofStrings, stringsOf?, List.mapM_map]
  induction l with
  | nil => rfl
  | cons s l ih =>
    rw [List.mapM_cons, ih]
    rfl

/-- A merge is decoded from its members, the kind apart. -/
theorem decodeNode_internal {below : Json → Option (Dendrogram String)}
    (hl : below l.toJson = some l) (hr : below r.toJson = some r) (h : Float)
    (ms : List String) :
    decodeNode below .internal (.object [("height", .ofFloat h), ("members", .ofStrings ms),
      ("left", l.toJson), ("right", r.toJson)]) = some (.internal l r h ms) := by
  have hfields : nodeFields? .internal (.object [("height", .ofFloat h),
      ("members", .ofStrings ms), ("left", l.toJson), ("right", r.toJson)]) =
      some [("height", .ofFloat h), ("members", .ofStrings ms), ("left", l.toJson),
        ("right", r.toJson)] := by
    simp [nodeFields?, NodeKind.fields]
  have hheight : realOf? (.ofFloat h) = some h := rfl
  rw [decodeNode, hfields]
  simp [neededField?, hheight, stringsOf?_ofStrings, hl, hr]

/-- **A dendrogram is decoded from the value it is written as**, with one level for each node on a
path. -/
theorem decodeTree_toJson {depth : Nat} (h : t.depth < depth) :
    decodeTree depth t.toJson = some t := by
  induction t generalizing depth with
  | leaf a =>
    obtain ⟨depth, rfl⟩ : ∃ k, depth = k + 1 := ⟨depth - 1, by omega⟩
    rw [decodeTree, Dendrogram.toJson]
    rfl
  | internal l r x ms ihl ihr =>
    rw [Dendrogram.depth] at h
    obtain ⟨depth, rfl⟩ : ∃ k, depth = k + 1 := ⟨depth - 1, by omega⟩
    have hl : l.depth < depth := by omega
    have hr : r.depth < depth := by omega
    rw [decodeTree, Dendrogram.toJson]
    exact decodeNode_internal (ihl hl) (ihr hr) x ms

/-! ## Reading the value of a dendrogram -/

/-- What is read for the members of a merge, the kind apart: nothing when one of the sides does
not fit into the room there is. -/
def mergeMembers? (room : Nat) (l r : Dendrogram String) (h : Float) (ms : List String) :
    Option (List (String × Json)) :=
  if max l.depth r.depth < room then
    (reread? h).bind fun h' => (l.mapHeights? reread?).bind fun l' =>
      (r.mapHeights? reread?).map fun r' => [("height", .ofFloat h'), ("members", .ofStrings ms),
        ("left", l'.toJson), ("right", r'.toJson)]
  else none

/-- The members of a merge are read one after the other. -/
theorem bind_eq_mergeMembers? (room : Nat) (l r : Dendrogram String) (h : Float)
    (ms : List String) :
    (((reread? h).map ofFloat).bind fun h' => Option.map (("height", h') :: ·)
      ((if room = 0 then none else some (ofStrings ms)).bind fun ms' =>
        Option.map (("members", ms') :: ·)
          ((if l.depth < room then (l.mapHeights? reread?).map Dendrogram.toJson else none).bind
            fun l' => Option.map (("left", l') :: ·)
              (Option.map (fun r' => [("right", r')])
                (if r.depth < room then (r.mapHeights? reread?).map Dendrogram.toJson
                else none))))) = mergeMembers? room l r h ms := by
  unfold mergeMembers?
  by_cases hmax : max l.depth r.depth < room
  · obtain ⟨hl, hr⟩ := max_lt_iff.1 hmax
    simp only [if_pos hmax, if_neg (by omega : room ≠ 0), if_pos hl, if_pos hr]
    cases reread? h <;> cases l.mapHeights? reread? <;> cases r.mapHeights? reread? <;> rfl
  · rw [if_neg hmax]
    have hside : ¬ l.depth < room ∨ ¬ r.depth < room := by omega
    rcases hside with hside | hside
    · simp [if_neg hside]
    · simp [if_neg hside]

/-- **What is read for a dendrogram**: nothing when there is no room for its longest path. -/
theorem ReadsValue.dendrogram (hfinite : ∀ x ∈ t.heights, x.isFinite = true) (room level : Nat) :
    ReadsValue room level t.toJson
      (if t.depth < room then (t.mapHeights? reread?).map Dendrogram.toJson else none) := by
  induction t generalizing room level with
  | leaf a =>
    have hobject := ReadsValue.object (fun room =>
      .cons "kind" (.string room (level + 1) "leaf") (.single "class" (.string room _ a))) room
    cases room <;> exact hobject
  | internal l r h ms ihl ihr =>
    rw [Dendrogram.heights_internal, List.forall_mem_cons, List.forall_mem_append] at hfinite
    obtain ⟨hh, hl, hr⟩ := hfinite
    have hobject := ReadsValue.object (fun room =>
      .cons "kind" (.string room (level + 1) "internal") (.cons "height" (.real room _ hh)
        (.cons "members" (.strings room _ ms) (.cons "left" (ihl hl room _)
          (.single "right" (ihr hr room _)))))) room
    have hdepth : (Dendrogram.internal l r h ms).depth = max l.depth r.depth + 1 := rfl
    rw [Dendrogram.toJson]
    convert hobject using 1
    cases room with
    | zero => rfl
    | succ room =>
      simp only [bind_eq_mergeMembers?, mergeMembers?]
      by_cases hmax : max l.depth r.depth < room
      · rw [if_pos (by omega), if_pos hmax, Dendrogram.mapHeights?]
        cases reread? h <;> cases l.mapHeights? reread? <;> cases r.mapHeights? reread? <;> rfl
      · rw [if_neg (by omega), if_neg hmax]
        rfl

/-! ## Reading a dendrogram inside a document -/

/-- What is read for the members of the outermost node that come after its kind. -/
def ReadsNode (room level : Nat) (members : List (String × Json)) (kind : NodeKind)
    (members'? : Option (List (String × Json))) : Prop :=
  ∀ bound rest, members.length < bound →
    readTreeMembers room bound false (some kind) (membersTail level members ++ rest) =
      outcome ('}' :: rest) (members'?.map (some kind, ·))

namespace ReadsNode

variable {k : NodeKind} {members : List (String × Json)}
  {members'? : Option (List (String × Json))} {name : String} {v : Json} {w? : Option Json}

theorem nil (k : NodeKind) : ReadsNode room level [] k (some []) := by
  intro bound rest hbound
  obtain ⟨bound, rfl⟩ : ∃ b, bound = b + 1 := ⟨bound - 1, by omega⟩
  rw [readTreeMembers, bind_of_eq_ok (nextPart_lastMember level rest)]
  rfl

/-- A member is read as a value, and then what follows it. -/
theorem cons (name : String) (hname : name ≠ "kind") (hv : ReadsValue room (level + 1) v w?)
    (hmembers : ReadsNode room level members k members'?) :
    ReadsNode room level ((name, v) :: members) k
      (w?.bind fun w => members'?.map ((name, w) :: ·)) := by
  intro bound rest hbound
  obtain ⟨bound, rfl⟩ : ∃ b, bound = b + 1 := ⟨bound - 1, by omega⟩
  rw [List.length_cons] at hbound
  rw [readTreeMembers, bind_of_eq_ok (nextPart_member level name v members rest)]
  simp only [if_true]
  rw [bind_of_eq_ok (readName_jsonString _ _)]
  simp only [if_neg hname]
  rw [bind_of_eq_ok (expectChar_colon _), bind_of_eq_outcome ((Reads.json hv).member members rest)]
  cases w? with
  | none => rfl
  | some w =>
    show (readTreeMembers room bound false (some k) >>= _) (membersTail level members ++ rest) = _
    rw [bind_of_eq_outcome (hmembers bound rest (by omega))]
    cases members'? <;> rfl

/-- The last member. -/
theorem single (name : String) (hname : name ≠ "kind") (hv : ReadsValue room (level + 1) v w?) :
    ReadsNode room level [(name, v)] k (w?.map fun w => [(name, w)]) := by
  have hcons := cons name hname hv (nil k)
  cases w? <;> exact hcons

/-- The kind comes first, and is read where it stands. -/
theorem readTreeMembers_kind (hk : NodeKind.ofName? name = some k)
    (hmembers : ReadsNode room level members k members'?) (bound : Nat)
    (hbound : members.length + 1 < bound) (rest : List Char) :
    readTreeMembers room bound true none
      (prettyMembers level (("kind", .string name) :: members) ++ rest) =
      outcome ('}' :: rest) (members'?.map (some k, ·)) := by
  obtain ⟨bound, rfl⟩ : ∃ b, bound = b + 1 := ⟨bound - 1, by omega⟩
  have hkind : readKind (' ' :: ((Json.string name).pretty (level + 1) ++
      (membersTail level members ++ rest))) = .ok (k, membersTail level members ++ rest) := by
    rw [readKind, bind_of_eq_outcome ((Reads.string name (level + 1)).member members rest)]
    simp only [Option.elim_some, hk]
    rfl
  have hpart := (nextPart_firstMember level ("kind", .string name) members rest).trans
    (nextPart_member level "kind" _ members rest)
  rw [readTreeMembers, bind_of_eq_ok hpart]
  simp only [if_true]
  rw [bind_of_eq_ok (readName_jsonString _ _)]
  simp only [if_true, Option.isSome_none, Bool.false_eq_true, if_false]
  rw [bind_of_eq_ok (expectChar_colon _), bind_of_eq_ok hkind]
  exact hmembers bound rest (by omega)

/-- **The dendrogram of the outermost node** is made of what is read for its members. -/
theorem dendrogram (hk : NodeKind.ofName? name = some k)
    (hmembers : ReadsNode room level members k members'?) {tree? : Option (Dendrogram String)}
    (hdecode : members'?.map (fun ms => decodeNode (decodeTree jsonDepth) k (.object ms)) =
      tree?.map some) :
    Reads (readTree (room + 1))
      ((Json.object (("kind", .string name) :: members)).pretty level) tree? := by
  intro u rest _ hu
  have hread := readTreeMembers_kind hk hmembers _
    (length_lt_prettyMembers level ("kind", .string name) members rest) rest
  rw [readTree, bind_of_eq_ok (nextChar_object hu)]
  show (enter (room + 1) >>= _) _ = _
  rw [bind_of_eq_ok (enter_succ _ _ _), bind_of_eq_ok (charsLeft_eq _)]
  simp only [Nat.add_sub_cancel]
  rw [bind_of_eq_outcome hread]
  cases members'? with
  | none =>
    cases tree? with
    | none => rfl
    | some t => cases hdecode
  | some ms =>
    cases tree? with
    | none => cases hdecode
    | some t =>
      have ht : decodeNode (decodeTree jsonDepth) k (.object ms) = some t :=
        Option.some.inj hdecode
      show readTree.finish (some k) (.object ms) '}' ('}' :: rest) = _
      rw [readTree.finish, bind_of_eq_ok (expectChar_cons (dropJsonBlanks_cons (by rfl))),
        Option.bind_some, ht]
      rfl

end ReadsNode

/-- A merge is decoded from what is read for its members. -/
theorem map_decodeNode_mergeMembers? (hroom : room ≤ jsonDepth) (l r : Dendrogram String)
    (h : Float) (ms : List String) :
    (mergeMembers? room l r h ms).map
        (fun members => decodeNode (decodeTree jsonDepth) .internal (.object members)) =
      (if max l.depth r.depth < room then (Dendrogram.internal l r h ms).mapHeights? reread?
        else none).map some := by
  have hdecode : ∀ t t' : Dendrogram String, t.depth < room → t.mapHeights? reread? = some t' →
      decodeTree jsonDepth t'.toJson = some t' := by
    intro t t' ht ht'
    apply decodeTree_toJson
    rw [Dendrogram.depth_of_mapHeights?_eq_some ht']
    omega
  unfold mergeMembers?
  split
  next hmax =>
    obtain ⟨hl, hr⟩ := max_lt_iff.1 hmax
    rw [Dendrogram.mapHeights?]
    simp only [Option.map_bind, Option.map_map, Function.comp_def]
    refine Option.bind_congr fun h' _ => Option.bind_congr fun l' hl' =>
      Option.map_congr fun r' hr' => ?_
    exact decodeNode_internal (hdecode l l' hl hl') (hdecode r r' hr hr') h' ms
  next => rfl

/-- **A dendrogram is read back up to its heights** if there is room for its longest path, and
refused if there is not. -/
theorem Reads.dendrogram (hfinite : ∀ x ∈ t.heights, x.isFinite = true) (hroom : room ≤ jsonDepth)
    (level : Nat) :
    Reads (readTree (room + 1)) (t.toJson.pretty level)
      (if t.depth ≤ room then t.mapHeights? reread? else none) := by
  cases t with
  | leaf a =>
    have hnode : ReadsNode room level [("class", .string a)] .leaf (some [("class", .string a)]) :=
      .single "class" (by decide) (.string room _ a)
    exact hnode.dendrogram rfl rfl
  | internal l r h ms =>
    rw [Dendrogram.heights_internal, List.forall_mem_cons, List.forall_mem_append] at hfinite
    obtain ⟨hh, hl, hr⟩ := hfinite
    have hnode : ReadsNode room level _ .internal _ :=
      .cons "height" (by decide) (.real room _ hh) (.cons "members" (by decide) (.strings room _ ms)
        (.cons "left" (by decide) (.dendrogram hl room _)
          (.single "right" (by decide) (.dendrogram hr room _))))
    rw [bind_eq_mergeMembers?] at hnode
    have hlimit : (Dendrogram.internal l r h ms).depth ≤ room ↔ max l.depth r.depth < room :=
      Nat.succ_le_iff
    rw [if_congr hlimit rfl rfl]
    exact hnode.dendrogram rfl (map_decodeNode_mergeMembers? hroom l r h ms)

end ModuleRecovery
