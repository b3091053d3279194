import ModuleRecovery.Proofs.Clustering.Similarity
import ModuleRecovery.Proofs.Collections.Pairs

set_option relaxedAutoImplicit false
set_option autoImplicit false

/-!
# Filling the similarity table

The similarity table of a list can be filled from rows that get shorter: the row of an item holds
its similarities to the items behind it. Each of them is written at two mirrored places of a flat
table. No two pairs share a place and no place is out of range, so the rows make the table whose
entries are the similarities, whatever the length of the list. While the rows are computed, the
similarity function is asked once for each pair of an earlier and a later item.

## Main definitions

* `ModuleRecovery.SimilarityMatrix.behind` — the positions that a row is about.
* `ModuleRecovery.SimilarityMatrix.askRows` — the rows, by an effect that tells similarities.
* `ModuleRecovery.SimilarityMatrix.recordAsked` — tell a similarity and record what was asked for.
* `ModuleRecovery.SimilarityMatrix.fillTable?` — the flat table that rows fill.
* `ModuleRecovery.SimilarityMatrix.Filled` — a flat table holds the entries of some pairs.

## Main results

* `ModuleRecovery.SimilarityMatrix.askRows_recordAsked` — what is told and asked for the rows.
* `ModuleRecovery.SimilarityMatrix.Filled.exists_mirror?` — an entry is written for its pair, and
  for no other.
* `ModuleRecovery.SimilarityMatrix.fillTable?_rows` — the rows fill the similarity table.
* `ModuleRecovery.similarityMatrix_entries` — the entries of the table, and how it is filled.
-/

universe u

namespace ModuleRecovery

open Number

namespace SimilarityMatrix

variable {n : Nat}

/-! ## Asking for the rows -/

/-- The positions behind a position. -/
def behind (i : Fin n) : List (Fin n) := (List.finRange n).drop (i.val + 1)

/-- Ask for the similarities of each position and those behind it, row by row, and clamp them. -/
def askRows {m : Type → Type} [Monad m] (n : Nat) (ask : Fin n → Fin n → m Float) :
    m (List (List Float)) :=
  (List.finRange n).mapM fun i => (behind i).mapM fun j => clampUnit <$> ask i j

/-- Tell the similarity of two positions, and record that it was asked for. -/
def recordAsked (s : Fin n → Fin n → Float) (i j : Fin n) : StateM (List (Fin n × Fin n)) Float :=
  fun asked => (s i j, asked ++ [(i, j)])

/-- The clamped similarities of each position and those behind it. -/
def rows (s : Fin n → Fin n → Float) : List (List Float) :=
  (List.finRange n).map fun i => (behind i).map fun j => clampUnit (s i j)

/-- A list of effects that record something records it in the order of the list. -/
theorem mapM_record {β γ δ : Type} {act : β → StateM (List δ) γ} {g : β → γ} {r : β → List δ}
    (h : ∀ b log, act b log = (g b, log ++ r b)) (l : List β) (log : List δ) :
    l.mapM act log = (l.map g, log ++ l.flatMap r) := by
  induction l generalizing log with
  | nil => simp [pure, StateT.pure]
  | cons b l ih =>
    have hbind : (b :: l).mapM act log =
        ((act b log).1 :: (l.mapM act (act b log).2).1, (l.mapM act (act b log).2).2) := by
      rw [List.mapM_cons]
      rfl
    rw [hbind, h, ih, List.map_cons, List.flatMap_cons, List.append_assoc]

/-- The pairs of a position with those behind it, row by row. -/
theorem flatMap_behind (n : Nat) :
    (List.finRange n).flatMap (fun i => (behind i).map (i, ·)) =
      unorderedPairs (List.finRange n) := by
  have hzip : (List.finRange n).zipIdx = (List.finRange n).map fun i => (i, i.val) :=
    List.ext_getElem (by simp) fun i _ _ => by simp
  rw [unorderedPairs_eq_flatMap_drop, hzip, List.flatMap_map]
  rfl

theorem lt_of_mem_behind {i j : Fin n} (h : j ∈ behind i) : i < j := by
  rw [← mem_unorderedPairs_finRange, ← flatMap_behind]
  exact List.mem_flatMap.2 ⟨i, List.mem_finRange i, List.mem_map_of_mem h⟩

/-- **What is told and asked for the rows**: the pairs of an earlier and a later position, each
once. -/
theorem askRows_recordAsked (s : Fin n → Fin n → Float) :
    askRows n (recordAsked s) [] = (rows s, unorderedPairs (List.finRange n)) := by
  have hrow : ∀ i log, ((behind i).mapM fun j => clampUnit <$> recordAsked s i j) log =
      ((behind i).map fun j => clampUnit (s i j), log ++ (behind i).map (i, ·)) := by
    intro i log
    rw [List.map_eq_flatMap (f := (i, ·))]
    exact mapM_record (fun j log => rfl) _ log
  rw [askRows, mapM_record hrow, flatMap_behind, List.nil_append]
  rfl

/-! ## Writing the rows -/

/-- Write to a place of a flat table; there is none if the place is out of range. -/
def write? (values : List Float) (p : Nat) (x : Float) : Option (List Float) :=
  if p < values.length then some (values.set p x) else none

/-- Write a similarity in row `i` and column `j`, and in row `j` and column `i`. -/
def mirror? (n i j : Nat) (x : Float) (values : List Float) : Option (List Float) :=
  (write? values (i * n + j) x).bind fun values => write? values (j * n + i) x

/-- Write the similarities of position `i` and those behind it. -/
def fillRow? (n : Nat) (values row : List Float) (i : Nat) : Option (List Float) :=
  row.zipIdx.foldlM (fun values sim => mirror? n i (i + 1 + sim.2) sim.1 values) values

/-- The flat table that rows fill, one after the other; its other places hold zeros. -/
def fillTable? (n : Nat) (rows : List (List Float)) : Option (List Float) :=
  rows.zipIdx.foldlM (fun values row => fillRow? n values row.1 row.2) (List.replicate (n * n) 0)

/-- A flat table holds the entries of some pairs of positions, at both places, and else zeros. -/
structure Filled (e : Fin n → Fin n → Float) (pairs : List (Fin n × Fin n))
    (values : List Float) : Prop where
  /-- The table has a place for each row and column. -/
  length_eq : values.length = n * n
  /-- A place holds the entry of its row and column if the pair is one of those. -/
  getElem?_eq : ∀ a b : Fin n, values[(position a b).val]? =
    some (if (a, b) ∈ pairs ∨ (b, a) ∈ pairs then e a b else 0)

variable {e : Fin n → Fin n → Float} {pairs : List (Fin n × Fin n)} {values : List Float}

theorem position_row_column (p : Fin (n * n)) : position (row p) (column p) = p := by
  refine Fin.ext ?_
  show (p / n * n + p % n : Nat) = p
  rw [Nat.mul_comm, Nat.div_add_mod]

/-- No two pairs share a place. -/
theorem position_inj {i j k l : Fin n} : position i j = position k l ↔ i = k ∧ j = l := by
  constructor
  · intro h
    exact ⟨by rw [← row_position i j, h, row_position], by
      rw [← column_position i j, h, column_position]⟩
  · rintro ⟨rfl, rfl⟩
    rfl

theorem write?_position (h : values.length = n * n) (i j : Fin n) (x : Float) :
    write? values (i * n + j) x = some (values.set (position i j).val x) :=
  if_pos (by rw [h]; exact (position i j).isLt)

/-- What a place holds after another one was written. -/
theorem getElem?_set_position (h : values.length = n * n) (i j a b : Fin n) (x : Float) :
    (values.set (position i j).val x)[(position a b).val]? =
      if i = a ∧ j = b then some x else values[(position a b).val]? := by
  have hplace : (position i j).val = (position a b).val ↔ i = a ∧ j = b := by
    rw [← Fin.ext_iff, position_inj]
  rw [List.getElem?_set]
  simp only [hplace, h, (position i j).isLt, if_true]

/-- **An entry is written for its pair, and for no other.** -/
theorem Filled.exists_mirror? (h : Filled e pairs values) {i j : Fin n} (he : e j i = e i j) :
    ∃ values', mirror? n i j (e i j) values = some values' ∧
      Filled e (pairs ++ [(i, j)]) values' := by
  have hlength : (values.set (position i j).val (e i j)).length = n * n := by
    rw [List.length_set, h.length_eq]
  refine ⟨(values.set (position i j).val (e i j)).set (position j i).val (e i j), ?_, ?_,
    fun a b => ?_⟩
  · rw [mirror?, write?_position h.length_eq, Option.bind_some, write?_position hlength]
  · rw [List.length_set, hlength]
  · rw [getElem?_set_position hlength, getElem?_set_position h.length_eq, h.getElem?_eq]
    by_cases hji : j = a ∧ i = b
    · obtain ⟨rfl, rfl⟩ := hji
      simp [he]
    · by_cases hij : i = a ∧ j = b
      · obtain ⟨rfl, rfl⟩ := hij
        simp [hji]
      · have hab : (a, b) ≠ (i, j) := by
          rintro heq
          exact hij ⟨(Prod.mk.inj heq).1.symm, (Prod.mk.inj heq).2.symm⟩
        have hba : (b, a) ≠ (i, j) := by
          rintro heq
          exact hji ⟨(Prod.mk.inj heq).2.symm, (Prod.mk.inj heq).1.symm⟩
        rw [if_neg hji, if_neg hij]
        simp [hab, hba]

theorem filled_replicate : Filled e [] (List.replicate (n * n) 0) where
  length_eq := List.length_replicate
  getElem?_eq a b := by
    rw [List.getElem?_replicate, if_pos (position a b).isLt]
    simp

/-- A loop that may fail does not fail, and keeps what each of its rounds keeps. -/
theorem foldlM_keeps {β δ σ : Type} {P : List δ → σ → Prop} {act : σ → β → Option σ}
    {r : β → List δ} {l : List β}
    (h : ∀ b ∈ l, ∀ done s, P done s → ∃ s', act s b = some s' ∧ P (done ++ r b) s')
    {done : List δ} {s : σ} (hs : P done s) :
    ∃ s', l.foldlM act s = some s' ∧ P (done ++ l.flatMap r) s' := by
  induction l generalizing done s with
  | nil => exact ⟨s, rfl, by rwa [List.flatMap_nil, List.append_nil]⟩
  | cons b l ih =>
    obtain ⟨s₁, hact, hs₁⟩ := h b List.mem_cons_self done s hs
    obtain ⟨s', hrest, hs'⟩ := ih (fun c hc => h c (List.mem_cons_of_mem b hc)) hs₁
    refine ⟨s', ?_, ?_⟩
    · rw [List.foldlM_cons, hact]
      exact hrest
    · rwa [List.flatMap_cons, ← List.append_assoc]

/-- **A row is written for the pairs of its position** with those behind it. -/
theorem Filled.exists_fillRow? (h : Filled e pairs values) (he : ∀ i j, e j i = e i j) (i : Fin n) :
    ∃ values', fillRow? n values ((behind i).map (e i)) i = some values' ∧
      Filled e (pairs ++ (behind i).map (i, ·)) values' := by
  -- the place of an item in the row tells its position
  have hzip : ((behind i).map (e i)).zipIdx =
      (behind i).map fun j => (e i j, j.val - (i.val + 1)) :=
    List.ext_getElem (by simp) fun k _ _ => by simp [behind]
  rw [fillRow?, hzip, List.foldlM_map, List.map_eq_flatMap (f := (i, ·))]
  refine foldlM_keeps (fun j hj pairs values h => ?_) h
  have hposition : i.val + 1 + (j.val - (i.val + 1)) = j.val :=
    Nat.add_sub_cancel' (lt_of_mem_behind hj)
  rw [hposition]
  exact h.exists_mirror? (he i j)

/-- **The rows are written for all pairs.** -/
theorem exists_fillTable? (he : ∀ i j, e j i = e i j) :
    ∃ values, fillTable? n ((List.finRange n).map fun i => (behind i).map (e i)) = some values ∧
      Filled e (unorderedPairs (List.finRange n)) values := by
  have hzip : ((List.finRange n).map fun i => (behind i).map (e i)).zipIdx =
      (List.finRange n).map fun i => ((behind i).map (e i), i.val) :=
    List.ext_getElem (by simp) fun k _ _ => by simp
  rw [fillTable?, hzip, List.foldlM_map, ← flatMap_behind,
    ← List.nil_append (List.flatMap _ _)]
  exact foldlM_keeps (fun i _ pairs values h => h.exists_fillRow? he i) filled_replicate

/-- A table that holds the entries of all pairs holds all entries, if those of an item with itself
are zero. -/
theorem Filled.eq_ofFn (h : Filled e (unorderedPairs (List.finRange n)) values)
    (hself : ∀ i, e i i = 0) : values = List.ofFn fun p => e (row p) (column p) := by
  refine List.ext_getElem? fun p => ?_
  by_cases hp : p < n * n
  · have hplace := h.getElem?_eq (row ⟨p, hp⟩) (column ⟨p, hp⟩)
    rw [position_row_column] at hplace
    rw [hplace, List.getElem?_ofFn, dif_pos hp]
    simp only [mem_unorderedPairs_finRange]
    rcases lt_trichotomy (row ⟨p, hp⟩) (column ⟨p, hp⟩) with hlt | heq | hgt
    · rw [if_pos (.inl hlt)]
    · rw [heq, hself, ite_self]
    · rw [if_pos (.inr hgt)]
  · rw [List.getElem?_eq_none (by rw [h.length_eq]; omega),
      List.getElem?_eq_none (by rw [List.length_ofFn]; omega)]

/-! ## The entries of a list -/

variable {α : Type u} (items : List α) (f : α → α → Float)

theorem entry_comm (i j : Fin items.length) : entry items f j i = entry items f i j := by
  unfold entry
  split_ifs with hji hij
  · exact absurd hji (lt_asymm hij)
  · rfl
  · rfl
  · rfl

@[simp] theorem entry_self (i : Fin items.length) : entry items f i i = 0 := by
  rw [entry, if_neg (lt_irrefl i), if_neg (lt_irrefl i)]

/-- The rows hold the entries of a list. -/
theorem rows_eq_map_entry :
    rows (fun i j => f (items.get i) (items.get j)) =
      (List.finRange items.length).map fun i => (behind i).map (entry items f i) := by
  refine List.map_congr_left fun i _ => List.map_congr_left fun j hj => ?_
  rw [entry, if_pos (lt_of_mem_behind hj)]

/-- **The rows of a list fill its similarity table.** -/
theorem fillTable?_rows :
    fillTable? items.length (rows fun i j => f (items.get i) (items.get j)) =
      some (ofList items f).values.toList := by
  obtain ⟨values, hfill, hfilled⟩ := exists_fillTable? (entry_comm items f)
  rw [rows_eq_map_entry, hfill, hfilled.eq_ofFn (entry_self items f), ofList, Vector.toList_ofFn]

end SimilarityMatrix

open SimilarityMatrix

variable {α : Type u}

/-- **The similarity table of a list.** The table is filled by rows: the function is asked exactly
once for each pair of an earlier and a later position, and for no other, and every write is in
range. For two different positions the table holds the clamped similarity of the items there, the
earlier one asked first, in either order of the positions; this is a number between zero and one. An
item has no similarity to itself. The flat table has `n * n` places, and the entry of row `i` and
column `j` is at the place `i * n + j`; these places are in range, and different for different rows
or columns. So the table depends on the similarities of earlier to later items only.

**Proof sketch.** The rows are written pair by pair. As no two pairs share a place, a write changes
the entries of its own pair and no other, and both get the same value; after the last row the pairs
written are all those of an earlier and a later position. -/
theorem similarityMatrix_entries (items : List α) (f : α → α → Float) :
    (∃ rows asked,
      askRows items.length (recordAsked fun i j => f (items.get i) (items.get j)) [] =
        (rows, asked) ∧
      (∀ i j, (i, j) ∈ asked ↔ i < j) ∧ asked.Nodup ∧
      fillTable? items.length rows = some (SimilarityMatrix.ofList items f).values.toList) ∧
    let n := items.length
    let table := SimilarityMatrix.ofList items f
    (∀ i j : Fin n, i ≠ j → table.get i j = table.get j i ∧
      table.get i j = clampUnit (f (items.get (min i j)) (items.get (max i j))) ∧
      (table.get i j).isNaN = false ∧ 0 ≤ table.get i j ∧ table.get i j ≤ 1) ∧
    (∀ i : Fin n, table.get i i = 0) ∧
    table.values.toList.length = n * n ∧
    (∀ i j : Fin n, table.values.toList[i.val * n + j.val]? = some (table.get i j)) ∧
    (∀ i j : Fin n, i.val * n + j.val < n * n) ∧
    (∀ i j k l : Fin n, i.val * n + j.val = k.val * n + l.val → i = k ∧ j = l) ∧
    ∀ g : α → α → Float, (∀ i j : Fin n, i < j →
      g (items.get i) (items.get j) = f (items.get i) (items.get j)) →
        SimilarityMatrix.ofList items g = table := by
  have hnodup : (unorderedPairs (List.finRange items.length)).Nodup :=
    (pairwise_unorderedPairs (List.nodup_finRange _)).imp fun h => h.1
  refine ⟨⟨_, _, askRows_recordAsked _, fun i j => mem_unorderedPairs_finRange, hnodup,
    fillTable?_rows items f⟩, ?_⟩
  intro n table
  have hget : ∀ i j, table.get i j = entry items f i j := get_ofList items f
  refine ⟨fun i j hij => ⟨?_, ?_, ?_, ?_⟩, fun i => ?_, Vector.length_toList, fun i j => ?_,
    fun i j => (position i j).isLt, fun i j k l h => position_inj.1 (Fin.ext h), fun g hg => ?_⟩
  · rw [hget, hget, entry_comm]
  · rw [hget]
    rcases lt_or_gt_of_ne hij with hlt | hgt
    · rw [min_eq_left hlt.le, max_eq_right hlt.le, entry, if_pos hlt]
    · rw [min_eq_right hgt.le, max_eq_left hgt.le, ← entry_comm, entry, if_pos hgt]
  · exact (inUnit_get_ofList items f i j).isNaN_eq_false
  · exact (inUnit_get_ofList items f i j).zero_le_and_le_one
  · rw [hget, entry_self]
  · rw [Vector.getElem?_toList]
    exact Vector.getElem?_eq_getElem (position i j).isLt
  · refine ofList_congr (List.pairwise_iff_get.2 fun i j hij => ?_)
    rw [hg i j hij]

end ModuleRecovery
