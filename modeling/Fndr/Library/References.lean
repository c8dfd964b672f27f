import Fndr.Library.Runs
import Mathlib.Data.List.Basic
import Mathlib.Data.Option.Basic

set_option autoImplicit false

/-! # An append-only table with a nullable reference

Rows are only appended, and one column of a row may refer to a key of another table. A key that goes
takes the references to it along and leaves the rows (`ON DELETE SET NULL`). In a run of such a
system no reference dangles (`AppendOnly.valid`), and an old row is still in its place: unchanged
when the key it refers to was there in every state since, and with its reference cleared otherwise
(`AppendOnly.history`). -/

namespace References

open Runs

variable {ρ κ : Type}

/-- A column that refers to a key, or to nothing. -/
structure Column (ρ κ : Type) where
  ref : ρ → Option κ
  clear : ρ → ρ
  ref_clear : ∀ row, ref (clear row) = none

/-- A row whose reference is cleared unless the key stays. -/
def Column.keep (column : Column ρ κ) (stays : κ → Prop) [DecidablePred stays] (row : ρ) : ρ :=
  if ∀ k ∈ column.ref row, stays k then row else column.clear row

/-- The rows once only the references to keys that stay are left. -/
def Column.setNull (column : Column ρ κ) (stays : κ → Prop) [DecidablePred stays] (rows : List ρ) :
    List ρ :=
  rows.map (column.keep stays)

/-- No reference dangles. -/
def Column.Valid (column : Column ρ κ) (present : κ → Prop) (rows : List ρ) : Prop :=
  ∀ row ∈ rows, ∀ k ∈ column.ref row, present k

variable {column : Column ρ κ}

theorem Column.Valid.append {present : κ → Prop} {rows added : List ρ}
    (h : column.Valid present rows) (hadded : column.Valid present added) :
    column.Valid present (rows ++ added) := by
  intro row hrow
  rcases List.mem_append.1 hrow with hrow | hrow
  · exact h row hrow
  · exact hadded row hrow

theorem Column.setNull_append (stays : κ → Prop) [DecidablePred stays] (rows added : List ρ) :
    column.setNull stays (rows ++ added)
      = column.setNull stays rows ++ column.setNull stays added := List.map_append

/-- What is left of a reference stays. -/
theorem Column.ref_keep {stays : κ → Prop} [DecidablePred stays] {row : ρ} {k : κ}
    (hk : k ∈ column.ref (column.keep stays row)) : k ∈ column.ref row ∧ stays k := by
  unfold Column.keep at hk
  split at hk
  · next hstays => exact ⟨hk, hstays k hk⟩
  · next hgone =>
      rw [column.ref_clear] at hk
      cases hk

/-- Of two rounds only a reference that stays in both is left. -/
theorem Column.keep_keep (p q : κ → Prop) [DecidablePred p] [DecidablePred q] (row : ρ) :
    column.keep q (column.keep p row) = column.keep (fun k => p k ∧ q k) row := by
  by_cases hp : ∀ k ∈ column.ref row, p k
  · have hiff : (∀ k ∈ column.ref row, q k) ↔ ∀ k ∈ column.ref row, p k ∧ q k :=
      ⟨fun h k hk => ⟨hp k hk, h k hk⟩, fun h k hk => (h k hk).2⟩
    rw [Column.keep, Column.keep, if_pos hp, Column.keep]
    exact if_congr hiff rfl rfl
  · have hnot : ¬ ∀ k ∈ column.ref row, p k ∧ q k := fun h => hp (fun k hk => (h k hk).1)
    rw [Column.keep, Column.keep, if_neg hp, Column.keep, if_neg hnot, if_pos]
    rw [column.ref_clear]
    exact fun k hk => nomatch hk

theorem Column.setNull_setNull (p q : κ → Prop) [DecidablePred p] [DecidablePred q]
    (rows : List ρ) : column.setNull q (column.setNull p rows)
      = column.setNull (fun k => p k ∧ q k) rows := by
  rw [Column.setNull, Column.setNull, List.map_map]
  exact List.map_congr_left (fun row _ => Column.keep_keep p q row)

variable (column) in
/-- The other columns are not touched. -/
theorem Column.map_setNull {γ : Type} {g : ρ → γ} (h : ∀ row, g (column.clear row) = g row)
    (stays : κ → Prop) [DecidablePred stays] (rows : List ρ) :
    (column.setNull stays rows).map g = rows.map g := by
  rw [Column.setNull, List.map_map]
  refine List.map_congr_left (fun row _ => ?_)
  show g (column.keep stays row) = g row
  unfold Column.keep
  split
  · rfl
  · exact h row

/-- When every key stays nothing is cleared. -/
theorem Column.setNull_of_valid {stays : κ → Prop} [DecidablePred stays] {rows : List ρ}
    (h : column.Valid stays rows) : column.setNull stays rows = rows :=
  (List.map_congr_left (fun row hrow => if_pos (h row hrow))).trans (List.map_id' rows)

theorem Column.setNull_congr {p q : κ → Prop} [DecidablePred p] [DecidablePred q] {rows : List ρ}
    (h : ∀ row ∈ rows, ∀ k ∈ column.ref row, (p k ↔ q k)) :
    column.setNull p rows = column.setNull q rows := by
  refine List.map_congr_left (fun row hrow => ?_)
  refine if_congr ?_ rfl rfl
  exact ⟨fun hp k hk => (h row hrow k hk).1 (hp k hk), fun hq k hk => (h row hrow k hk).2 (hq k hk)⟩

/-! ## Runs -/

variable {σ ℓ : Type} (exec : σ → ℓ → σ) (table : σ → List ρ) (present : σ → κ → Prop)

/-- A step that clears the references to the keys that go, and appends rows that refer to keys that
    are there. -/
def Keeps (column : Column ρ κ) (s : σ) (l : ℓ) : Prop :=
  ∃ (stays : κ → Prop) (_ : DecidablePred stays) (added : List ρ),
    (∀ k, present s k → (stays k ↔ present (exec s l) k)) ∧
      column.Valid (present (exec s l)) added ∧
      table (exec s l) = column.setNull stays (table s) ++ added

/-- No step takes an entry out of the column. -/
def AppendOnly (column : Column ρ κ) : Prop := ∀ s l, Keeps exec table present column s l

variable {exec table present}

theorem Column.valid_nil (present : κ → Prop) : column.Valid present [] :=
  fun _ hrow => nomatch hrow

/-- A step that appends rows and leaves the keys. -/
theorem Keeps.of_append {s : σ} {l : ℓ} {added : List ρ} (hkeys : present (exec s l) = present s)
    (hadded : column.Valid (present s) added) (htable : table (exec s l) = table s ++ added) :
    Keeps exec table present column s l := by
  refine ⟨fun _ => True, inferInstance, added, fun k hk => ?_, ?_, ?_⟩
  · rw [hkeys]
    exact ⟨fun _ => hk, fun _ => trivial⟩
  · rw [hkeys]
    exact hadded
  · rw [htable, Column.setNull_of_valid (fun _ _ _ _ => trivial)]

/-- A step that clears what referred to the keys it takes. -/
theorem Keeps.of_setNull {s : σ} {l : ℓ} (stays : κ → Prop) [DecidablePred stays]
    (hstays : ∀ k, present s k → (stays k ↔ present (exec s l) k))
    (htable : table (exec s l) = column.setNull stays (table s)) :
    Keeps exec table present column s l :=
  ⟨stays, inferInstance, [], hstays, Column.valid_nil _, htable.trans (List.append_nil _).symm⟩

theorem AppendOnly.valid_step (h : AppendOnly exec table present column) {s : σ} (l : ℓ)
    (hs : column.Valid (present s) (table s)) :
    column.Valid (present (exec s l)) (table (exec s l)) := by
  obtain ⟨stays, hdec, added, hstays, hadded, htable⟩ := h s l
  rw [htable]
  refine Column.Valid.append (fun row hrow k hk => ?_) hadded
  obtain ⟨old, hold, rfl⟩ := List.mem_map.1 hrow
  obtain ⟨href, hstay⟩ := Column.ref_keep hk
  exact (hstays k (hs old hold k href)).1 hstay

/-- **No reference ever dangles.** -/
theorem AppendOnly.valid (h : AppendOnly exec table present column) {s : σ} {ls : List ℓ}
    (hs : column.Valid (present s) (table s)) :
    AllStates exec (fun t => column.Valid (present t) (table t)) s ls :=
  AllStates.of_step (fun _ l ht => h.valid_step l ht) hs

open Classical in
/-- **What is left of a table.** A reference lasts exactly as long as its key. -/
theorem AppendOnly.history (h : AppendOnly exec table present column) {s : σ} (ls : List ℓ)
    (hs : column.Valid (present s) (table s)) :
    ∃ added, table (final exec s ls)
      = column.setNull (fun k => AllStates exec (present · k) s ls) (table s) ++ added := by
  induction ls generalizing s with
  | nil => exact ⟨[], (List.append_nil _).symm ▸ (Column.setNull_of_valid hs).symm⟩
  | cons l ls ih =>
      obtain ⟨added', hrest⟩ := ih (h.valid_step l hs)
      obtain ⟨stays, hdec, added, hstays, -, htable⟩ := h s l
      refine ⟨column.setNull (fun k => AllStates exec (present · k) (exec s l) ls) added ++ added',
        hrest.trans ?_⟩
      rw [htable, Column.setNull_append, Column.setNull_setNull, List.append_assoc]
      refine congrArg (· ++ _) ?_
      refine Column.setNull_congr (fun row hrow k hk => ?_)
      have hk' := hs row hrow k hk
      constructor
      · exact fun hboth => ⟨hk', hboth.2⟩
      · exact fun hall => ⟨(hstays k hk').2 hall.2.head, hall.2⟩

end References
