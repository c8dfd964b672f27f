import Mathlib.Algebra.BigOperators.Group.List.Basic
import Mathlib.Algebra.GroupWithZero.Nat
import Mathlib.Algebra.Order.Group.Nat

set_option autoImplicit false

/-! # Greedy filling

One pass over the items takes every item that still fits into the budget and goes on behind the
ones that do not. What is taken keeps its order and the budget (`cost_taken_le`), every item is
taken or skipped (`length_taken_add_length_skipped`), and since the cost of what was taken only
grows, no skipped item fits at the end (`not_fits_of_mem_skipped`). -/

namespace Greedy

variable {α : Type} (cost : α → ℕ) (budget : ℕ)

/-- The items that fit what is left of the budget when their turn comes. -/
def taken (used : ℕ) : List α → List α
  | [] => []
  | x :: rest =>
      if budget < used + cost x then taken used rest else x :: taken (used + cost x) rest

/-- The items that do not fit. -/
def skipped (used : ℕ) : List α → List α
  | [] => []
  | x :: rest =>
      if budget < used + cost x then x :: skipped used rest else skipped (used + cost x) rest

/-- The cost of what a pass takes, with what was used before it. -/
def total (used : ℕ) (items : List α) : ℕ := used + ((taken cost budget used items).map cost).sum

variable {cost budget}

theorem taken_sublist (used : ℕ) (items : List α) :
    (taken cost budget used items).Sublist items := by
  induction items generalizing used with
  | nil => exact List.Sublist.slnil
  | cons x rest ih =>
      rw [taken]
      split
      · exact (ih used).cons x
      · exact (ih _).cons_cons x

theorem length_taken_add_length_skipped (used : ℕ) (items : List α) :
    (taken cost budget used items).length + (skipped cost budget used items).length
      = items.length := by
  induction items generalizing used with
  | nil => rfl
  | cons x rest ih =>
      rw [taken, skipped]
      split
      · rw [List.length_cons, List.length_cons, ← ih used]
        omega
      · rw [List.length_cons, List.length_cons, ← ih (used + cost x)]
        omega

theorem total_cons_of_fits {used : ℕ} {x : α} (h : ¬ budget < used + cost x) (rest : List α) :
    total cost budget used (x :: rest) = total cost budget (used + cost x) rest := by
  rw [total, taken, if_neg h, List.map_cons, List.sum_cons, ← Nat.add_assoc, total]

theorem total_cons_of_not_fits {used : ℕ} {x : α} (h : budget < used + cost x) (rest : List α) :
    total cost budget used (x :: rest) = total cost budget used rest := by
  rw [total, taken, if_pos h, total]

theorem used_le_total (used : ℕ) (items : List α) : used ≤ total cost budget used items :=
  Nat.le_add_right _ _

theorem total_le {used : ℕ} (h : used ≤ budget) (items : List α) :
    total cost budget used items ≤ budget := by
  induction items generalizing used with
  | nil => simpa [total, taken] using h
  | cons x rest ih =>
      by_cases hfits : budget < used + cost x
      · rw [total_cons_of_not_fits hfits]
        exact ih h
      · rw [total_cons_of_fits hfits]
        exact ih (Nat.le_of_not_lt hfits)

/-- What was taken fits into the budget. -/
theorem cost_taken_le (items : List α) : ((taken cost budget 0 items).map cost).sum ≤ budget := by
  have h : total cost budget 0 items ≤ budget := total_le (Nat.zero_le budget) items
  rwa [total, Nat.zero_add] at h

/-- **A skipped item does not fit into what is left at the end.** -/
theorem not_fits_of_mem_skipped {used : ℕ} {items : List α} {x : α}
    (h : x ∈ skipped cost budget used items) :
    budget < total cost budget used items + cost x := by
  induction items generalizing used with
  | nil => exact absurd h List.not_mem_nil
  | cons y rest ih =>
      rw [skipped] at h
      by_cases hfits : budget < used + cost y
      · rw [if_pos hfits] at h
        rw [total_cons_of_not_fits hfits]
        rcases List.mem_cons.1 h with rfl | h
        · exact hfits.trans_le (Nat.add_le_add_right (used_le_total used rest) _)
        · exact ih h
      · rw [if_neg hfits] at h
        rw [total_cons_of_fits hfits]
        exact ih h

theorem mem_taken_or_skipped (used : ℕ) {items : List α} {x : α} (h : x ∈ items) :
    x ∈ taken cost budget used items ∨ x ∈ skipped cost budget used items := by
  induction items generalizing used with
  | nil => exact absurd h List.not_mem_nil
  | cons y rest ih =>
      rw [taken, skipped]
      split
      · rcases List.mem_cons.1 h with rfl | h
        · exact Or.inr List.mem_cons_self
        · exact (ih used h).imp_right (List.mem_cons_of_mem y)
      · rcases List.mem_cons.1 h with rfl | h
        · exact Or.inl List.mem_cons_self
        · exact (ih _ h).imp_left (List.mem_cons_of_mem y)

end Greedy
