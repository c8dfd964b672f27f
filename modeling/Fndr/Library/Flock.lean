import Mathlib.Data.List.Nodup
import Mathlib.Data.List.Basic

set_option autoImplicit false

/-! # Advisory file locks

`flock` with `LOCK_EX | LOCK_NB`. An exclusive lock belongs to an open of a file, not to a process:
a request through any other open of the file is refused until that open is closed, also when both
belong to the process that asks. -/

namespace Flock

variable {φ : Type}

/-- The exclusive lock on a file, held through one of its opens. -/
structure Held (φ : Type) where
  file : φ
  openId : ℕ
  deriving DecidableEq

/-- The locks of a machine: one a file, each through an open of its own. -/
structure Table (φ : Type) where
  held : List (Held φ)
  opens : ℕ
  exclusive : (held.map Held.file).Nodup
  opened : ∀ lock ∈ held, lock.openId < opens

/-- No file is open. -/
def Table.empty : Table φ := ⟨[], 0, List.nodup_nil, fun _ h => nomatch h⟩

/-- Open a file and ask for the lock. A refused open is closed again. -/
def Table.acquire [DecidableEq φ] (table : Table φ) (file : φ) : Option (Held φ) × Table φ :=
  if hheld : file ∈ table.held.map Held.file then
    (none, ⟨table.held, table.opens + 1, table.exclusive,
      fun lock h => Nat.lt_succ_of_lt (table.opened lock h)⟩)
  else
    (some ⟨file, table.opens⟩, ⟨⟨file, table.opens⟩ :: table.held, table.opens + 1,
      List.nodup_cons.2 ⟨hheld, table.exclusive⟩, by
        intro lock hlock
        rcases List.mem_cons.1 hlock with rfl | hold
        · exact Nat.lt_succ_self _
        · exact Nat.lt_succ_of_lt (table.opened lock hold)⟩)

/-- Close the open behind a lock. -/
def Table.close [DecidableEq φ] (table : Table φ) (lock : Held φ) : Table φ where
  held := table.held.filter (fun other => decide (other ≠ lock))
  opens := table.opens
  exclusive := (List.filter_sublist.map Held.file).nodup table.exclusive
  opened other h := table.opened other (List.mem_filter.1 h).1

theorem Table.mem_close [DecidableEq φ] {table : Table φ} {lock other : Held φ} :
    other ∈ (table.close lock).held ↔ other ∈ table.held ∧ other ≠ lock := by
  rw [Table.close, List.mem_filter, decide_eq_true_iff]

/-- Close the opens behind several locks, as the end of their process does. -/
def Table.closeAll [DecidableEq φ] (table : Table φ) (locks : List (Held φ)) : Table φ :=
  locks.foldl Table.close table

theorem Table.mem_closeAll [DecidableEq φ] {table : Table φ} {locks : List (Held φ)}
    {other : Held φ} : other ∈ (table.closeAll locks).held ↔ other ∈ table.held ∧ other ∉ locks := by
  induction locks generalizing table with
  | nil => simp [closeAll]
  | cons lock locks ih =>
      rw [closeAll, List.foldl_cons]
      refine ih.trans ?_
      rw [mem_close, List.mem_cons, not_or, and_assoc]

/-- A file has one lock. -/
theorem Table.eq_of_file {table : Table φ} {lock other : Held φ} (hlock : lock ∈ table.held)
    (hother : other ∈ table.held) (hfile : lock.file = other.file) : lock = other :=
  List.inj_on_of_nodup_map table.exclusive hlock hother hfile

/-- A refused request changes nothing; it is refused because somebody holds a lock on the file. -/
theorem Table.acquire_none [DecidableEq φ] {table after : Table φ} {file : φ}
    (h : table.acquire file = (none, after)) :
    file ∈ table.held.map Held.file ∧ after.held = table.held := by
  unfold Table.acquire at h
  split at h
  · next hheld =>
    cases h
    exact ⟨hheld, rfl⟩
  · cases h

/-- A granted request adds a lock of its own, and nobody held one on the file. -/
theorem Table.acquire_some [DecidableEq φ] {table after : Table φ} {file : φ} {lock : Held φ}
    (h : table.acquire file = (some lock, after)) :
    file ∉ table.held.map Held.file ∧ lock.file = file ∧ after.held = lock :: table.held := by
  unfold Table.acquire at h
  split at h
  · cases h
  · next hheld =>
    cases h
    exact ⟨hheld, rfl, rfl⟩

end Flock
