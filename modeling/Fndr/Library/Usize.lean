import Mathlib.Algebra.Group.Nat.Defs

set_option autoImplicit false

/-! # Arithmetic on `usize`

A `usize` of 64 bits is a natural number below `2 ^ 64`. The operations return nothing where the
result does not fit, which is what `checked_mul` reports and where `*` panics or wraps; slices are
read the same way. A program is free of overflow when what it computes with these is something. -/

namespace RustStd

/-- `usize::MAX`, and one more. -/
def USIZE_BOUND : ℕ := 2 ^ 64

/-- `usize::checked_add`. -/
def checkedAdd (a b : ℕ) : Option ℕ := if a + b < USIZE_BOUND then some (a + b) else none

/-- `usize::checked_mul`. -/
def checkedMul (a b : ℕ) : Option ℕ := if a * b < USIZE_BOUND then some (a * b) else none

/-- `usize::checked_sub`. -/
def checkedSub (a b : ℕ) : Option ℕ := if b ≤ a then some (a - b) else none

/-- `slice[start..stop]`. -/
def checkedSlice {α : Type} (slice : List α) (start stop : ℕ) : Option (List α) :=
  if start ≤ stop ∧ stop ≤ slice.length then some ((slice.take stop).drop start) else none

/-- `target[start..stop].copy_from_slice(source)`. -/
def checkedCopy {α : Type} (target : List α) (start stop : ℕ) (source : List α) :
    Option (List α) :=
  if start ≤ stop ∧ stop ≤ target.length ∧ source.length = stop - start then
    some (target.take start ++ (source ++ target.drop stop))
  else none

@[simp] theorem checkedAdd_of_lt {a b : ℕ} (h : a + b < USIZE_BOUND) :
    checkedAdd a b = some (a + b) := if_pos h

@[simp] theorem checkedMul_of_lt {a b : ℕ} (h : a * b < USIZE_BOUND) :
    checkedMul a b = some (a * b) := if_pos h

@[simp] theorem checkedSub_of_le {a b : ℕ} (h : b ≤ a) : checkedSub a b = some (a - b) := if_pos h

theorem checkedSlice_of_le {α : Type} {slice : List α} {start stop : ℕ} (hstart : start ≤ stop)
    (hstop : stop ≤ slice.length) :
    checkedSlice slice start stop = some ((slice.take stop).drop start) := if_pos ⟨hstart, hstop⟩

/-- A copy replaces the part of the target that lies in its range. -/
theorem checkedCopy_append {α : Type} {source old : List α} (h : source.length = old.length)
    (front back : List α) :
    checkedCopy (front ++ (old ++ back)) front.length (front.length + old.length) source =
      some (front ++ (source ++ back)) := by
  have hdrop : (front ++ (old ++ back)).drop (front.length + old.length) = back := by
    rw [← List.append_assoc, List.drop_left' List.length_append]
  rw [checkedCopy, if_pos (by simp [h]), List.take_left, hdrop]

theorem checkedMul_eq_none_iff {a b : ℕ} : checkedMul a b = none ↔ USIZE_BOUND ≤ a * b := by
  unfold checkedMul
  split
  · next h => exact iff_of_false nofun (Nat.not_le.2 h)
  · next h => exact iff_of_true rfl (Nat.not_lt.1 h)

end RustStd
