import Mathlib.Data.List.Sort
import Mathlib.Algebra.GroupWithZero.Nat
import Mathlib.Algebra.Ring.Int.Defs
import Mathlib.Algebra.BigOperators.Group.List.Lemmas

set_option autoImplicit false

/-! # Tables as lists of rows

A table is the list of its rows in rowid order, and the statements below are SQL's: `updateWhere`,
`deleteWhere`, and `orderLimit` for a query with `ORDER BY` and `LIMIT`. SQL leaves the order of
rows that tie under `ORDER BY` unspecified, so a query is given a `ScanOrder`, any permutation in
which the engine may visit the rows before it sorts them.

`unindex` and `reindex` are the effect of delete and update triggers on a secondary index that
holds one entry per row; both keep the index equal to the table up to order. -/

namespace Rows

variable {ρ ε κ : Type}

/-- `UPDATE t SET row = f row WHERE p row`. -/
def updateWhere (p : ρ → Bool) (f : ρ → ρ) (rows : List ρ) : List ρ :=
  rows.map (fun r => if p r then f r else r)

/-- `DELETE FROM t WHERE p row`. -/
def deleteWhere (p : ρ → Bool) (rows : List ρ) : List ρ := rows.filter (fun r => !p r)

/-- An order in which the engine may visit the rows of a query before sorting them. -/
structure ScanOrder (ρ : Type) where
  order : List ρ → List ρ
  perm : ∀ rows, (order rows).Perm rows

/-- Rows visited in table order. -/
def tableOrder (ρ : Type) : ScanOrder ρ := ⟨id, fun _ => List.Perm.refl _⟩

/-- `LIMIT n`, where a negative limit is no limit. -/
def limit (n : ℤ) (rows : List ρ) : List ρ := if n < 0 then rows else rows.take n.toNat

/-- `SELECT ... ORDER BY le LIMIT n`. -/
def orderLimit (le : ρ → ρ → Prop) [DecidableRel le] (scan : ScanOrder ρ) (n : ℤ)
    (rows : List ρ) : List ρ :=
  limit n ((scan.order rows).insertionSort le)

/-- `GROUP BY key`: the rows of every key that occurs. -/
def groupBy [DecidableEq κ] (key : ρ → κ) (rows : List ρ) : List (κ × List ρ) :=
  (rows.map key).dedup.map (fun k => (k, rows.filter (fun r => key r = k)))

/-! ## Updates and deletions -/

theorem mem_updateWhere {p : ρ → Bool} {f : ρ → ρ} {rows : List ρ} {x : ρ} :
    x ∈ updateWhere p f rows ↔ ∃ r ∈ rows, (if p r then f r else r) = x := List.mem_map

/-- A column the update leaves alone. -/
theorem map_updateWhere {p : ρ → Bool} {f : ρ → ρ} {g : ρ → κ} (h : ∀ r, p r → g (f r) = g r)
    (rows : List ρ) : (updateWhere p f rows).map g = rows.map g := by
  rw [updateWhere, List.map_map]
  refine List.map_congr_left (fun r _ => ?_)
  simp only [Function.comp_apply]
  split
  · next hp => exact h r hp
  · rfl

theorem updateWhere_of_forall_not {p : ρ → Bool} {f : ρ → ρ} {rows : List ρ}
    (h : ∀ r ∈ rows, p r = false) : updateWhere p f rows = rows := by
  rw [updateWhere]
  conv_rhs => rw [← List.map_id rows]
  exact List.map_congr_left (fun r hr => by simp [h r hr])

theorem mem_deleteWhere {p : ρ → Bool} {rows : List ρ} {x : ρ} :
    x ∈ deleteWhere p rows ↔ x ∈ rows ∧ p x = false := by
  simp [deleteWhere]

theorem deleteWhere_sublist (p : ρ → Bool) (rows : List ρ) : (deleteWhere p rows).Sublist rows :=
  List.filter_sublist

/-! ## Groups -/

/-- Every row is in one group. -/
theorem sum_length_groupBy [DecidableEq κ] (key : ρ → κ) (rows : List ρ) :
    ((groupBy key rows).map (fun group => group.2.length)).sum = rows.length := by
  have hcount : ∀ k, (rows.filter (fun r => key r = k)).length = (rows.map key).count k := by
    intro k
    rw [List.count_eq_countP, List.countP_map, List.countP_eq_length_filter]
    rfl
  rw [groupBy, List.map_map]
  simp only [Function.comp_def, hcount]
  rw [List.sum_map_count_dedup_eq_length, List.length_map]

theorem mem_groupBy [DecidableEq κ] {key : ρ → κ} {rows : List ρ} {group : κ × List ρ} :
    group ∈ groupBy key rows ↔
      ∃ r ∈ rows, group = (key r, rows.filter (fun r' => key r' = key r)) := by
  rw [groupBy, List.mem_map]
  constructor
  · rintro ⟨k, hk, rfl⟩
    obtain ⟨r, hr, rfl⟩ := List.mem_map.1 (List.mem_dedup.1 hk)
    exact ⟨r, hr, rfl⟩
  · rintro ⟨r, hr, rfl⟩
    exact ⟨key r, List.mem_dedup.2 (List.mem_map_of_mem hr), rfl⟩

/-! ## Lookups by key -/

/-- Two rows of a keyed table with the same key are the same row. -/
theorem eq_of_key_eq {g : ρ → κ} {rows : List ρ} (h : (rows.map g).Nodup) {x y : ρ}
    (hx : x ∈ rows) (hy : y ∈ rows) (hxy : g x = g y) : x = y :=
  List.inj_on_of_nodup_map h hx hy hxy

/-- A lookup by key finds the one row with that key. -/
theorem filter_key_eq_singleton [BEq κ] [LawfulBEq κ] {key : ρ → κ} {rows : List ρ}
    (h : (rows.map key).Nodup) {r : ρ} (hr : r ∈ rows) :
    rows.filter (fun r' => key r' == key r) = [r] := by
  induction rows with
  | nil => nomatch hr
  | cons r' rows ih =>
      rw [List.map_cons, List.nodup_cons] at h
      rcases List.mem_cons.1 hr with rfl | hr
      · rw [List.filter_cons_of_pos (by simp), List.filter_eq_nil_iff.2]
        intro r'' hr'' heq
        exact h.1 (List.mem_map.2 ⟨r'', hr'', by simpa using heq⟩)
      · rw [List.filter_cons_of_neg, ih h.2 hr]
        intro heq
        exact h.1 (List.mem_map.2 ⟨r, hr, by simpa using Eq.symm (by simpa using heq)⟩)

theorem find?_key_eq_some [BEq κ] [LawfulBEq κ] {key : ρ → κ} {rows : List ρ}
    (h : (rows.map key).Nodup) {r : ρ} (hr : r ∈ rows) :
    rows.find? (fun r' => key r' == key r) = some r := by
  rw [← List.head?_filter, filter_key_eq_singleton h hr]
  rfl

theorem nodup_map_concat {g : ρ → κ} {rows : List ρ} {x : ρ} (h : (rows.map g).Nodup)
    (hx : ∀ r ∈ rows, g r ≠ g x) : ((rows ++ [x]).map g).Nodup := by
  rw [List.map_append, List.map_singleton]
  refine h.append (List.nodup_singleton _) (List.disjoint_singleton.2 ?_)
  rw [List.mem_map]
  rintro ⟨r, hr, heq⟩
  exact hx r hr heq

/-- Erasing repetitions leaves one of each. -/
theorem mem_eraseReps [BEq κ] [LawfulBEq κ] {keys : List κ} {k : κ} :
    k ∈ keys.eraseReps ↔ k ∈ keys := by
  have hloop : ∀ (rest : List κ) (a : κ) (acc : List κ),
      k ∈ List.eraseRepsBy.loop (· == ·) a rest acc ↔ k ∈ acc ∨ k ∈ a :: rest := by
    intro rest
    induction rest with
    | nil =>
        intro a acc
        simp only [List.eraseRepsBy.loop, List.mem_reverse, List.mem_cons, List.not_mem_nil, or_false]
        exact or_comm
    | cons b rest ih =>
        intro a acc
        rw [List.eraseRepsBy.loop]
        split
        · next hsame =>
          rw [ih, ← eq_of_beq hsame]
          simp only [List.mem_cons, or_self_left]
        · rw [ih]
          simp only [List.mem_cons]
          tauto
  cases keys with
  | nil => exact Iff.rfl
  | cons a rest => exact (hloop rest a []).trans (or_iff_right List.not_mem_nil)

/-! ## Queries -/

section Queries

variable {le : ρ → ρ → Prop} [DecidableRel le] (scan : ScanOrder ρ)

theorem sorted_perm (rows : List ρ) : ((scan.order rows).insertionSort le).Perm rows :=
  (List.perm_insertionSort le _).trans (scan.perm rows)

theorem limit_map {γ : Type} (f : ρ → γ) (n : ℤ) (rows : List ρ) :
    (limit n rows).map f = limit n (rows.map f) := by
  unfold limit
  split
  · rfl
  · exact List.map_take

/-- Sorting compares a row with later ones only. -/
theorem insertionSort_congr {le' : ρ → ρ → Prop} [DecidableRel le'] {rows : List ρ}
    (h : rows.Pairwise (fun a b => le a b ↔ le' a b)) :
    rows.insertionSort le = rows.insertionSort le' := by
  have hinsert : ∀ (a : ρ) (sorted : List ρ), (∀ b ∈ sorted, le a b ↔ le' a b) →
      sorted.orderedInsert le a = sorted.orderedInsert le' a := by
    intro a sorted hsorted
    induction sorted with
    | nil => rfl
    | cons b sorted ih =>
        obtain ⟨hb, hrest⟩ := List.forall_mem_cons.1 hsorted
        simp only [List.orderedInsert_cons, hb, ih hrest]
  induction rows with
  | nil => rfl
  | cons a rows ih =>
      obtain ⟨ha, hrows⟩ := List.pairwise_cons.1 h
      rw [List.insertionSort_cons, List.insertionSort_cons, ih hrows]
      exact hinsert a _ (fun b hb => ha b ((List.mem_insertionSort le').1 hb))

theorem limit_sublist (n : ℤ) (rows : List ρ) : (limit n rows).Sublist rows := by
  unfold limit
  split
  · exact List.Sublist.refl rows
  · exact List.take_sublist _ rows

theorem orderLimit_subperm (n : ℤ) (rows : List ρ) :
    (orderLimit le scan n rows).Subperm rows :=
  (limit_sublist n _).subperm.trans (sorted_perm scan rows).subperm

theorem mem_of_mem_orderLimit {n : ℤ} {rows : List ρ} {x : ρ}
    (h : x ∈ orderLimit le scan n rows) : x ∈ rows :=
  (orderLimit_subperm scan n rows).subset h

theorem length_orderLimit (n : ℕ) (rows : List ρ) :
    (orderLimit le scan n rows).length = min n rows.length := by
  rw [orderLimit, limit, if_neg (by omega), Int.toNat_natCast, List.length_take,
    (sorted_perm scan rows).length_eq]

/-- A smaller limit cuts the same list shorter. -/
theorem orderLimit_eq_take {n m : ℕ} (h : n ≤ m) (rows : List ρ) :
    orderLimit le scan n rows = (orderLimit le scan m rows).take n := by
  simp only [orderLimit, limit]
  rw [if_neg (by omega), if_neg (by omega), Int.toNat_natCast, Int.toNat_natCast, List.take_take,
    Nat.min_eq_left h]

/-- A limit that leaves nothing out only orders the rows. -/
theorem perm_orderLimit {n : ℕ} {rows : List ρ} (h : rows.length ≤ n) :
    (orderLimit le scan n rows).Perm rows := by
  refine (orderLimit_subperm scan n rows).perm_of_length_le ?_
  rw [length_orderLimit]
  omega

variable (le) in
/-- A query result and the rows it left out make up the table again. -/
theorem perm_orderLimit_append_filter {g : ρ → κ} [BEq κ] [LawfulBEq κ] (n : ℤ) {rows : List ρ}
    (h : (rows.map g).Nodup) :
    rows.Perm (orderLimit le scan n rows ++
      rows.filter (fun r => !decide (g r ∈ (orderLimit le scan n rows).map g))) := by
  generalize hbatch : orderLimit le scan n rows = batch
  have hsubperm : (orderLimit le scan n rows).Subperm rows := orderLimit_subperm scan n rows
  obtain ⟨sub, hsub, hsublist⟩ := hbatch ▸ hsubperm
  obtain ⟨rest, hrest⟩ := hsublist.exists_perm_append
  -- the rest is what the filter keeps: no key of it is in the batch, and every key of the batch is
  have hperm : rows.Perm (batch ++ rest) := hrest.trans (hsub.append_right rest)
  have hnodup := (hperm.map g).nodup_iff.1 h
  rw [List.map_append] at hnodup
  refine hperm.trans (List.Perm.append_left batch (List.Perm.symm ?_))
  refine (hperm.filter _).trans (List.Perm.of_eq ?_)
  rw [List.filter_append, List.filter_eq_nil_iff.2, List.filter_eq_self.2, List.nil_append]
  · intro r hr
    have hdisj := List.disjoint_right.1 (List.disjoint_of_nodup_append hnodup)
      (List.mem_map.2 ⟨r, hr, rfl⟩)
    rw [decide_eq_false hdisj]
    rfl
  · intro r hr
    simp only [Bool.not_eq_true', decide_eq_false_iff_not, not_not]
    exact List.mem_map.2 ⟨r, hr, rfl⟩

end Queries

/-! ## Secondary indexes kept by triggers -/

section Triggers

variable [DecidableEq ε] (entry : ρ → ε)

/-- Delete triggers: remove the entry of every deleted row. -/
def unindex (deleted : List ρ) (index : List ε) : List ε :=
  deleted.foldl (fun idx r => idx.erase (entry r)) index

/-- Update triggers: replace the entry of every updated row. -/
def reindex (f : ρ → ρ) (updated : List ρ) (index : List ε) : List ε :=
  updated.foldl (fun idx r => idx.erase (entry r) ++ [entry (f r)]) index

theorem erase_perm_of_perm_cons {e : ε} {index rest : List ε} (h : index.Perm (e :: rest)) :
    (index.erase e).Perm rest := by
  have := h.erase e
  rwa [List.erase_cons_head] at this

theorem unindex_perm_append (p : ρ → Bool) (rows : List ρ) :
    ∀ (kept index : List ε), index.Perm (kept ++ rows.map entry) →
      (unindex entry (rows.filter p) index).Perm
        (kept ++ (deleteWhere p rows).map entry) := by
  induction rows with
  | nil => intro kept index h; simpa [unindex, deleteWhere] using h
  | cons r rows ih =>
      intro kept index h
      rw [List.map_cons] at h
      have hmid := h.trans List.perm_middle
      by_cases hp : p r
      · rw [List.filter_cons_of_pos hp, unindex, List.foldl_cons]
        rw [deleteWhere, List.filter_cons_of_neg (by simpa using hp)]
        exact ih kept _ (erase_perm_of_perm_cons hmid)
      · rw [List.filter_cons_of_neg hp]
        rw [deleteWhere, List.filter_cons_of_pos (by simpa using hp), List.map_cons]
        have := ih (entry r :: kept) index (by simpa using hmid)
        exact this.trans List.perm_middle.symm

theorem unindex_perm {p : ρ → Bool} {rows : List ρ} {index : List ε}
    (h : index.Perm (rows.map entry)) :
    (unindex entry (rows.filter p) index).Perm ((deleteWhere p rows).map entry) :=
  unindex_perm_append entry p rows [] index h

theorem reindex_perm_append (p : ρ → Bool) (f : ρ → ρ) (rows : List ρ) :
    ∀ (done index : List ε), index.Perm (done ++ rows.map entry) →
      (reindex entry f (rows.filter p) index).Perm
        (done ++ (updateWhere p f rows).map entry) := by
  induction rows with
  | nil => intro done index h; simpa [reindex, updateWhere] using h
  | cons r rows ih =>
      intro done index h
      rw [List.map_cons] at h
      have hmid := h.trans List.perm_middle
      by_cases hp : p r
      · rw [List.filter_cons_of_pos hp, reindex, List.foldl_cons, updateWhere, List.map_cons,
          if_pos hp, List.map_cons]
        refine (ih (entry (f r) :: done) _ ?_).trans List.perm_middle.symm
        exact (List.perm_append_singleton _ _).trans
          ((erase_perm_of_perm_cons hmid).cons (entry (f r)))
      · rw [List.filter_cons_of_neg hp, updateWhere, List.map_cons, if_neg hp, List.map_cons]
        have := ih (entry r :: done) index (by simpa using hmid)
        exact this.trans List.perm_middle.symm

theorem reindex_perm {p : ρ → Bool} {f : ρ → ρ} {rows : List ρ} {index : List ε}
    (h : index.Perm (rows.map entry)) :
    (reindex entry f (rows.filter p) index).Perm ((updateWhere p f rows).map entry) :=
  reindex_perm_append entry p f rows [] index h

/-- Entries outside the deleted rows stay where they are. -/
theorem filter_unindex (q : ε → Bool) (deleted : List ρ) (index : List ε)
    (h : ∀ r ∈ deleted, q (entry r) = false) :
    (unindex entry deleted index).filter q = index.filter q := by
  induction deleted generalizing index with
  | nil => rfl
  | cons r deleted ih =>
      rw [unindex, List.foldl_cons]
      refine (ih _ (fun r' hr' => h r' (List.mem_cons_of_mem r hr'))).trans ?_
      rw [← List.erase_filter, List.erase_of_not_mem]
      intro hmem
      have := (List.mem_filter.1 hmem).2
      simp [h r List.mem_cons_self] at this

end Triggers

end Rows
