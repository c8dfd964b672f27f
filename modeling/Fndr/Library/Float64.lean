import Mathlib.Data.Nat.Log
import Mathlib.Data.Int.Order.Basic
import Mathlib.Algebra.Order.Ring.Int

set_option autoImplicit false

/-! # Whole numbers as binary64

A conversion of an integer to a double keeps the 53 leading bits and rounds the rest to the nearest
even. The doubles that arise this way are whole numbers, so they are modelled as integers: `asF64 n`
is the double a conversion gives. -/

namespace Binary64

/-- A number of units, and what is left of the next one, rounded half to even. -/
def roundHalfEven (quotient rest unit : ℕ) : ℕ :=
  if unit < 2 * rest ∨ (2 * rest = unit ∧ quotient % 2 = 1) then quotient + 1 else quotient

/-- The double nearest to a natural number. -/
def ofNat (n : ℕ) : ℕ :=
  let unit := 2 ^ (Nat.log 2 n - 52)
  roundHalfEven (n / unit) (n % unit) unit * unit

/-- `n as f64`. -/
def asF64 (n : ℤ) : ℤ := n.sign * (ofNat n.natAbs : ℤ)

/-- Numbers of at most 53 bits are doubles. -/
theorem ofNat_of_lt {n : ℕ} (h : n < 2 ^ 53) : ofNat n = n := by
  have hlog : Nat.log 2 n - 52 = 0 := by
    have : Nat.log 2 n < 53 := Nat.log_lt_of_lt_pow' (by omega) h
    omega
  unfold ofNat roundHalfEven
  rw [hlog]
  simp [Nat.mod_one]

theorem asF64_of_natAbs_lt {n : ℤ} (h : n.natAbs < 2 ^ 53) : asF64 n = n := by
  rw [asF64, ofNat_of_lt h]
  exact Int.sign_mul_natAbs n

end Binary64
