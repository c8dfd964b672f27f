import Mathlib.Algebra.Order.Floor.Semifield
import Mathlib.Data.Int.Log
import Mathlib.Data.Prod.Lex
import Mathlib.Data.Rat.Floor
import Mathlib.Tactic.Linarith
import Mathlib.Tactic.NormNum
import Mathlib.Tactic.Ring

set_option autoImplicit false

/-! # Rounding to the nearest float

Lean's floats have a model: a result is computed on mantissas and exponents, shifted to the exponent
that the format wants, and rounded to the nearest mantissa, of two to the even one. Here the order
of floats is read as a lexicographic one (`le_iff_rank_le`), and what the model's shifting and
rounding computes for a positive number is `nearest`, a function of the number alone
(`roundWithAccuracy_eq`). It keeps the order (`rank_nearest_mono`). -/

namespace Ieee

open Float.Model Float.Model.UnpackedFloat

/-! ## The order -/

/-- Floats by class, exponent and mantissa. -/
def rank : UnpackedFloat → ℤ ×ₗ ℤ ×ₗ ℤ
  | .infinity .negative => toLex (-2, toLex (0, 0))
  | .finite .negative m e _ => toLex (-1, toLex (-e, -m))
  | .zero _ => toLex (0, toLex (0, 0))
  | .finite .positive m e _ => toLex (1, toLex (e, m))
  | .infinity .positive => toLex (2, toLex (0, 0))
  | .notANumber => toLex (3, toLex (0, 0))

theorem isLE_then_compare (e₁ e₂ : ℤ) (m₁ m₂ : ℕ) :
    ((compare e₁ e₂).then (compare m₁ m₂)).isLE = true ↔ e₁ < e₂ ∨ e₁ = e₂ ∧ m₁ ≤ m₂ := by
  rw [Ordering.isLE_then_iff_or, compare_lt_iff_lt, compare_eq_iff_eq, compare_le_iff_le.symm,
    Ordering.isLE_iff_ne_gt]

theorem swap_then_compare (e₁ e₂ : ℤ) (m₁ m₂ : ℕ) :
    ((compare e₁ e₂).then (compare m₁ m₂)).swap = (compare e₂ e₁).then (compare m₂ m₁) := by
  rw [Ordering.swap_then, ← Std.OrientedCmp.eq_swap, ← Std.OrientedCmp.eq_swap]

theorem class_le_of_rank_le {a b : ℤ} {x y : ℤ ×ₗ ℤ} (h : toLex (a, x) ≤ toLex (b, y)) : a ≤ b :=
  (Prod.Lex.le_iff.1 h).elim le_of_lt (fun h => h.1.le)

theorem ne_notANumber_of_le {a b : UnpackedFloat} (h : a.le b = true) :
    a ≠ .notANumber ∧ b ≠ .notANumber := by
  constructor
  · rintro rfl
    exact Bool.false_ne_true h
  · rintro rfl
    cases a <;> exact Bool.false_ne_true h

theorem le_iff_rank_le {a b : UnpackedFloat} (ha : a ≠ .notANumber) (hb : b ≠ .notANumber) :
    a.le b = true ↔ rank a ≤ rank b := by
  rcases a with (_ | _) | _ | _ | ⟨_ | _, m, e, hm⟩ <;>
    rcases b with (_ | _) | _ | _ | ⟨_ | _, m', e', hm'⟩ <;>
    first
    | exact absurd rfl ha
    | exact absurd rfl hb
    | clear ha hb
      dsimp only [UnpackedFloat.le, UnpackedFloat.compare, rank]
      simp [Prod.Lex.le_iff, isLE_then_compare, swap_then_compare]
  -- two infinities, compared by their signs
  · decide
  · decide
  · decide
  · decide
  -- two negative numbers
  · rw [eq_comm (a := e) (b := e')]

theorem float_le_trans {a b c : UnpackedFloat} (h : a.le b = true) (h' : b.le c = true) :
    a.le c = true := by
  obtain ⟨ha, hb⟩ := ne_notANumber_of_le h
  have hc := (ne_notANumber_of_le h').2
  rw [le_iff_rank_le ha hc]
  exact ((le_iff_rank_le ha hb).1 h).trans ((le_iff_rank_le hb hc).1 h')

/-! ## Nearest, ties to even -/

/-- The natural number nearest to `x`, the even one of two. -/
def nearestEven (x : ℚ) : ℕ :=
  if 2 * (x - ⌊x⌋₊) < 1 then ⌊x⌋₊
  else if 2 * (x - ⌊x⌋₊) = 1 then ⌊x⌋₊ + ⌊x⌋₊ % 2 else ⌊x⌋₊ + 1

theorem nearestEven_natCast (n : ℕ) : nearestEven n = n := by
  simp [nearestEven]

theorem floor_le_nearestEven (x : ℚ) : ⌊x⌋₊ ≤ nearestEven x := by
  unfold nearestEven
  split_ifs <;> omega

theorem nearestEven_le_floor_succ (x : ℚ) : nearestEven x ≤ ⌊x⌋₊ + 1 := by
  unfold nearestEven
  split_ifs <;> omega

theorem nearestEven_mono {x y : ℚ} (h : x ≤ y) : nearestEven x ≤ nearestEven y := by
  rcases (Nat.floor_mono h).lt_or_eq with hlt | heq
  · exact (nearestEven_le_floor_succ x).trans (hlt.trans_le (floor_le_nearestEven y))
  · have hrest : 2 * (x - ⌊x⌋₊) ≤ 2 * (y - ⌊x⌋₊) := by linarith
    unfold nearestEven
    rw [← heq]
    rcases lt_trichotomy (2 * (x - ⌊x⌋₊)) 1 with hx | hx | hx
    · rw [if_pos hx]
      split_ifs <;> omega
    · rw [if_neg hx.not_lt, if_pos hx, if_neg (hx ▸ hrest).not_gt]
      split_ifs <;> omega
    · rw [if_neg hx.not_gt, if_neg hx.ne', if_neg (hx.trans_le hrest).not_gt,
        if_neg (hx.trans_le hrest).ne']

theorem nearestEven_le {x : ℚ} {n : ℕ} (h : x ≤ n) : nearestEven x ≤ n :=
  (nearestEven_mono h).trans_eq (nearestEven_natCast n)

theorem le_nearestEven {x : ℚ} {n : ℕ} (h : n ≤ x) : n ≤ nearestEven x :=
  (nearestEven_natCast n).symm.trans_le (nearestEven_mono h)

/-! ## Extended mantissas -/

/-- The mantissa with its two bits stands for `x`. -/
structure StandsFor (em : ExtendedMantissa) (x : ℚ) : Prop where
  below : em.mantissa ≤ x
  above : x < em.mantissa + 1
  roundBit : em.roundBit = true ↔ 1 ≤ 2 * (x - em.mantissa)
  stickyBit : em.stickyBit = true ↔ 2 * (x - em.mantissa) ≠ 0 ∧ 2 * (x - em.mantissa) ≠ 1

theorem StandsFor.floor {em : ExtendedMantissa} {x : ℚ} (h : StandsFor em x) :
    ⌊x⌋₊ = em.mantissa :=
  (Nat.floor_eq_iff ((Nat.cast_nonneg _).trans h.below)).2 ⟨h.below, h.above⟩

theorem StandsFor.shiftRightOne {em : ExtendedMantissa} {x : ℚ} (h : StandsFor em x) :
    StandsFor em.shiftRightOne (x / 2) := by
  have hbelow := h.below
  have habove := h.above
  have hsplit : (em.mantissa : ℚ)
      = 2 * ((em.mantissa / 2 : ℕ) : ℚ) + ((em.mantissa % 2 : ℕ) : ℚ) := by
    exact_mod_cast (Nat.div_add_mod em.mantissa 2).symm
  have hbits : (em.roundBit || em.stickyBit) = true ↔ 2 * (x - em.mantissa) ≠ 0 := by
    rw [Bool.or_eq_true, h.roundBit, h.stickyBit]
    constructor
    · rintro (hround | hsticky)
      · intro hzero
        linarith
      · exact hsticky.1
    · intro hne
      by_cases heq : 2 * (x - em.mantissa) = 1
      · exact Or.inl heq.ge
      · exact Or.inr ⟨hne, heq⟩
  have hrest : 2 * (x / 2 - ((em.mantissa / 2 : ℕ) : ℚ))
      = x - em.mantissa + ((em.mantissa % 2 : ℕ) : ℚ) := by linarith
  -- the last bit of the mantissa becomes the round bit
  have hbit : em.mantissa % 2 = 0 ∨ em.mantissa % 2 = 1 := Nat.mod_two_eq_zero_or_one _
  refine ⟨?_, ?_, ?_, ?_⟩
  · change ((em.mantissa / 2 : ℕ) : ℚ) ≤ x / 2
    have : (0 : ℚ) ≤ ((em.mantissa % 2 : ℕ) : ℚ) := Nat.cast_nonneg _
    linarith
  · change x / 2 < ((em.mantissa / 2 : ℕ) : ℚ) + 1
    have : ((em.mantissa % 2 : ℕ) : ℚ) ≤ 1 := by exact_mod_cast (show em.mantissa % 2 ≤ 1 by omega)
    linarith
  · change (em.mantissa % 2 != 0) = true ↔ 1 ≤ 2 * (x / 2 - ((em.mantissa / 2 : ℕ) : ℚ))
    rw [hrest]
    rcases hbit with hbit | hbit <;> rw [hbit]
    · exact iff_of_false (by decide) (by rw [Nat.cast_zero]; linarith)
    · exact iff_of_true (by decide) (by rw [Nat.cast_one]; linarith)
  · change (em.roundBit || em.stickyBit) = true ↔
      2 * (x / 2 - ((em.mantissa / 2 : ℕ) : ℚ)) ≠ 0 ∧ 2 * (x / 2 - ((em.mantissa / 2 : ℕ) : ℚ)) ≠ 1
    rw [hbits, hrest]
    rcases hbit with hbit | hbit <;> rw [hbit]
    · rw [Nat.cast_zero, add_zero]
      refine ⟨fun hne => ⟨fun hzero => hne (by linarith), by linarith⟩, fun hne hzero => ?_⟩
      exact hne.1 (by linarith)
    · rw [Nat.cast_one]
      refine ⟨fun hne => ⟨by linarith, fun hone => hne (by linarith)⟩, fun hne hzero => ?_⟩
      exact hne.2 (by linarith)

theorem StandsFor.shiftRight {em : ExtendedMantissa} {x : ℚ} (h : StandsFor em x) (n : ℕ) :
    StandsFor (em >>> n) (x / 2 ^ n) := by
  induction n with
  | zero =>
      rw [pow_zero, div_one]
      exact h
  | succ n ih =>
      rw [pow_succ, ← div_div]
      exact ih.shiftRightOne

theorem StandsFor.roundedMantissa {em : ExtendedMantissa} {x : ℚ} (h : StandsFor em x) :
    em.roundedMantissa = nearestEven x := by
  have hround := h.roundBit
  have hsticky := h.stickyBit
  unfold nearestEven
  rw [h.floor]
  obtain ⟨mantissa, roundBit, stickyBit⟩ := em
  dsimp only at hround hsticky ⊢
  cases roundBit with
  | false =>
      have hlt : 2 * (x - mantissa) < 1 := not_le.1 (fun hle => Bool.noConfusion (hround.2 hle))
      rw [if_pos hlt]
      cases stickyBit <;> rfl
  | true =>
      have hle := hround.1 rfl
      rw [if_neg hle.not_gt]
      cases stickyBit with
      | false =>
          rw [if_pos (by by_contra hne; exact Bool.noConfusion (hsticky.2 ⟨by linarith, hne⟩))]
          rfl
      | true =>
          rw [if_neg (hsticky.1 rfl).2]
          rfl

theorem standsFor_exact (m : ℕ) : StandsFor (.ofMantissaAndAccuracy m .exact) m where
  below := le_rfl
  above := lt_add_one _
  roundBit := by
    change false = true ↔ 1 ≤ 2 * ((m : ℚ) - m)
    simp
  stickyBit := by
    change false = true ↔ 2 * ((m : ℚ) - m) ≠ 0 ∧ 2 * ((m : ℚ) - m) ≠ 1
    simp

theorem standsFor_inexact {m : ℕ} {x : ℚ} (hbelow : (m : ℚ) < x) (habove : x < m + 1) :
    StandsFor (.ofMantissaAndAccuracy m (.inexact (compare (2 * (x - m)) 1))) x := by
  have hne : 2 * (x - m) ≠ 0 := by linarith
  rcases lt_trichotomy (2 * (x - m)) 1 with h | h | h
  · rw [compare_lt_iff_lt.2 h]
    exact ⟨hbelow.le, habove, iff_of_false nofun h.not_ge, iff_of_true rfl ⟨hne, h.ne⟩⟩
  · rw [compare_eq_iff_eq.2 h]
    exact ⟨hbelow.le, habove, iff_of_true rfl h.ge, iff_of_false nofun (fun hsticky => hsticky.2 h)⟩
  · rw [compare_gt_iff_gt.2 h]
    exact ⟨hbelow.le, habove, iff_of_true rfl h.le, iff_of_true rfl ⟨hne, h.ne'⟩⟩

/-- A quotient with what is left of the next unit. -/
theorem standsFor_fraction (n : ℕ) {d : ℕ} (hd : 0 < d) :
    StandsFor (.ofMantissaAndAccuracy (n / d) (accuracyOfFraction (n % d) d)) (n / d) := by
  have hpos : (0 : ℚ) < d := Nat.cast_pos.2 hd
  have hsplit : (n : ℚ) = d * ((n / d : ℕ) : ℚ) + ((n % d : ℕ) : ℚ) := by
    exact_mod_cast (Nat.div_add_mod n d).symm
  have hrest : (n : ℚ) / d - ((n / d : ℕ) : ℚ) = ((n % d : ℕ) : ℚ) / d := by
    rw [eq_div_iff hpos.ne', sub_mul, div_mul_cancel₀ _ hpos.ne', hsplit]
    ring
  unfold accuracyOfFraction
  split
  · next hzero =>
    rw [hzero, Nat.cast_zero, zero_div, sub_eq_zero] at hrest
    rw [hrest]
    exact standsFor_exact _
  · next hne =>
    have hrest_pos : (0 : ℚ) < ((n % d : ℕ) : ℚ) / d :=
      div_pos (Nat.cast_pos.2 (Nat.pos_of_ne_zero hne)) hpos
    have hrest_lt : ((n % d : ℕ) : ℚ) / d < 1 :=
      (div_lt_one hpos).2 (Nat.cast_lt.2 (Nat.mod_lt _ hd))
    have hcompare : compare (2 * (n % d)) d
        = compare (2 * ((n : ℚ) / d - ((n / d : ℕ) : ℚ))) 1 := by
      rw [hrest, ← mul_div_assoc]
      rcases lt_trichotomy (2 * (n % d)) d with h | h | h
      · rw [compare_lt_iff_lt.2 h, eq_comm, compare_lt_iff_lt, div_lt_one hpos]
        exact_mod_cast h
      · rw [compare_eq_iff_eq.2 h, eq_comm, compare_eq_iff_eq, div_eq_one_iff_eq hpos.ne']
        exact_mod_cast h
      · rw [compare_gt_iff_gt.2 h, eq_comm, compare_gt_iff_gt, one_lt_div hpos]
        exact_mod_cast h
    rw [hcompare]
    exact standsFor_inexact (by linarith) (by linarith)

/-! ## Rounding a positive number -/

theorem rank_zero_le_finite (sign : Sign) {m : ℕ} {e : ℤ} (hm : 0 < m) :
    rank (.zero sign) ≤ rank (.finite .positive m e hm) :=
  Prod.Lex.le_iff.2 (Or.inl zero_lt_one)

theorem rank_finite_le_iff {m m' : ℕ} {e e' : ℤ} {hm : 0 < m} {hm' : 0 < m'} :
    rank (.finite .positive m e hm) ≤ rank (.finite .positive m' e' hm')
      ↔ e < e' ∨ e = e' ∧ m ≤ m' := by
  constructor
  · intro h
    have hrest := (Prod.Lex.le_iff.1 h).resolve_left (lt_irrefl _)
    exact (Prod.Lex.le_iff.1 hrest.2).imp id (And.imp id Nat.cast_le.1)
  · intro h
    refine Prod.Lex.le_iff.2 (Or.inr ⟨rfl, Prod.Lex.le_iff.2 ?_⟩)
    exact h.imp id (And.imp id Nat.cast_le.2)

section Nearest

variable (spec : Format)

/-- A mantissa of at most `2 ^ spec.mantissaBits` at an exponent. -/
def assemble (e : ℤ) (m : ℕ) : UnpackedFloat :=
  if h : m = 0 then .zero .positive
  else if m = 2 ^ spec.mantissaBits then
    .finite .positive (2 ^ spec.mantissaBitsWithoutImplicit) (e + 1) (Nat.two_pow_pos _)
  else .finite .positive m e (Nat.pos_of_ne_zero h)

/-- The exponent a number is rounded at. -/
def exponentOf (x : ℚ) : ℤ := spec.targetExponent (Int.log 2 x + 1)

/-- The mantissa it is rounded to. -/
def mantissaOf (x : ℚ) : ℕ := nearestEven (x / 2 ^ exponentOf spec x)

/-- The nearest float, if there were no greatest exponent. -/
def nearest (x : ℚ) : UnpackedFloat := assemble spec (exponentOf spec x) (mantissaOf spec x)

theorem mantissaBits_eq : (spec.mantissaBits : ℤ) = 1 + spec.mantissaBitsWithoutImplicit := by
  change ((1 + spec.mantissaBitsWithoutImplicit : ℕ) : ℤ) = _
  rw [Nat.cast_add, Nat.cast_one]

theorem two_pow_mantissaBits :
    2 ^ spec.mantissaBits = 2 * 2 ^ spec.mantissaBitsWithoutImplicit := by
  change 2 ^ (1 + spec.mantissaBitsWithoutImplicit) = _
  rw [pow_add, pow_one]

variable {spec}

theorem assemble_zero (e : ℤ) : assemble spec e 0 = .zero .positive := dif_pos rfl

/-- A mantissa with a bit too many is half of it at the next exponent. -/
theorem assemble_full (e : ℤ) :
    assemble spec e (2 ^ spec.mantissaBits)
      = .finite .positive (2 ^ spec.mantissaBitsWithoutImplicit) (e + 1) (Nat.two_pow_pos _) := by
  rw [assemble, dif_neg (Nat.two_pow_pos _).ne', if_pos rfl]

theorem assemble_of_ne {m : ℕ} (e : ℤ) (hm : 0 < m) (h : m ≠ 2 ^ spec.mantissaBits) :
    assemble spec e m = .finite .positive m e hm := by
  rw [assemble, dif_neg hm.ne', if_neg h]

variable (spec) in
theorem assemble_cases (m : ℕ) :
    m = 0 ∨ m = 2 ^ spec.mantissaBits ∨ 0 < m ∧ m ≠ 2 ^ spec.mantissaBits := by
  omega

theorem rank_zero_le_assemble (e : ℤ) (m : ℕ) :
    rank (.zero .positive) ≤ rank (assemble spec e m) := by
  rcases assemble_cases spec m with rfl | rfl | ⟨hm, hne⟩
  · rw [assemble_zero]
  · rw [assemble_full]
    exact rank_zero_le_finite _ _
  · rw [assemble_of_ne e hm hne]
    exact rank_zero_le_finite _ _

theorem rank_assemble_mono {e : ℤ} {m m' : ℕ} (h : m ≤ m') (hm' : m' ≤ 2 ^ spec.mantissaBits) :
    rank (assemble spec e m) ≤ rank (assemble spec e m') := by
  rcases assemble_cases spec m with rfl | rfl | ⟨hm, hne⟩
  · rw [assemble_zero]
    exact rank_zero_le_assemble e m'
  · rw [le_antisymm h hm']
  · rw [assemble_of_ne e hm hne]
    rcases hm'.eq_or_lt with rfl | hlt
    · rw [assemble_full]
      exact rank_finite_le_iff.2 (Or.inl (lt_add_one e))
    · rw [assemble_of_ne e (hm.trans_le h) hlt.ne]
      exact rank_finite_le_iff.2 (Or.inr ⟨rfl, h⟩)

theorem rank_assemble_of_lt {e e' : ℤ} {m m' : ℕ} (h : e < e')
    (hm' : 2 ^ spec.mantissaBitsWithoutImplicit ≤ m') :
    rank (assemble spec e m) ≤ rank (assemble spec e' m') := by
  -- at the next exponent half of a mantissa with a bit too many is the least one with all bits
  have hnext : ∃ hhalf : 0 < 2 ^ spec.mantissaBitsWithoutImplicit,
      rank (.finite .positive (2 ^ spec.mantissaBitsWithoutImplicit) (e + 1) hhalf)
        ≤ rank (assemble spec e' m') := by
    refine ⟨Nat.two_pow_pos _, ?_⟩
    rcases assemble_cases spec m' with rfl | rfl | ⟨hpos, hne⟩
    · exact absurd hm' (Nat.two_pow_pos _).not_ge
    · rw [assemble_full]
      exact rank_finite_le_iff.2 (by omega)
    · rw [assemble_of_ne e' hpos hne]
      exact rank_finite_le_iff.2 (by omega)
  obtain ⟨hhalf, hnext⟩ := hnext
  rcases assemble_cases spec m with rfl | rfl | ⟨hm, hne⟩
  · rw [assemble_zero]
    exact rank_zero_le_assemble e' m'
  · rw [assemble_full]
    exact hnext
  · rw [assemble_of_ne e hm hne]
    exact (rank_finite_le_iff.2 (Or.inl (lt_add_one e))).trans hnext

theorem minExponent_le_exponentOf (x : ℚ) : spec.minExponent ≤ exponentOf spec x := le_max_right _ _

theorem exponentOf_mono {x y : ℚ} (hx : 0 < x) (h : x ≤ y) :
    exponentOf spec x ≤ exponentOf spec y :=
  max_le_max_right _ (sub_le_sub_right (add_le_add_left (Int.log_mono_right hx h) _) _)

theorem lt_zpow_exponentOf (x : ℚ) : x < 2 ^ (exponentOf spec x + spec.mantissaBits) := by
  have hlog : x < 2 ^ (Int.log 2 x + 1) := by
    exact_mod_cast Int.lt_zpow_succ_log_self (by norm_num : 1 < 2) x
  refine hlog.trans_le (zpow_le_zpow_right₀ (by norm_num) ?_)
  have : Int.log 2 x + 1 - spec.mantissaBits ≤ exponentOf spec x := le_max_left _ _
  omega

theorem mantissaOf_le (x : ℚ) : mantissaOf spec x ≤ 2 ^ spec.mantissaBits := by
  refine nearestEven_le ?_
  rw [div_le_iff₀ (zpow_pos (by norm_num) _)]
  have hlt : x < 2 ^ (exponentOf spec x + spec.mantissaBits) := lt_zpow_exponentOf x
  refine hlt.le.trans_eq ?_
  rw [zpow_add₀ (by norm_num), mul_comm, Nat.cast_pow, Nat.cast_ofNat, zpow_natCast]

/-- Above the least exponent a mantissa has all its bits. -/
theorem le_mantissaOf {x : ℚ} (hx : 0 < x) (h : spec.minExponent < exponentOf spec x) :
    2 ^ spec.mantissaBitsWithoutImplicit ≤ mantissaOf spec x := by
  refine le_nearestEven ?_
  rw [le_div_iff₀ (zpow_pos (by norm_num) _), Nat.cast_pow, Nat.cast_ofNat, ← zpow_natCast,
    ← zpow_add₀ (by norm_num)]
  have hexp : exponentOf spec x = Int.log 2 x + 1 - spec.mantissaBits :=
    (max_choice _ _).resolve_right (fun heq => h.ne' heq)
  have hbits := mantissaBits_eq spec
  rw [show (spec.mantissaBitsWithoutImplicit : ℤ) + exponentOf spec x = Int.log 2 x by omega]
  exact_mod_cast Int.zpow_log_le_self (by norm_num : 1 < 2) hx

theorem nearest_zero : nearest spec 0 = .zero .positive := by
  have hzero : mantissaOf spec 0 = 0 := by
    rw [mantissaOf, zero_div]
    exact nearestEven_natCast 0
  rw [nearest, hzero, assemble_zero]

/-- **Rounding keeps the order.** -/
theorem rank_nearest_mono {x y : ℚ} (hx : 0 ≤ x) (h : x ≤ y) :
    rank (nearest spec x) ≤ rank (nearest spec y) := by
  rcases hx.eq_or_lt with rfl | hpos
  · rw [nearest_zero]
    exact rank_zero_le_assemble _ _
  · have hexp : exponentOf spec x ≤ exponentOf spec y := exponentOf_mono hpos h
    rcases hexp.lt_or_eq with hlt | heq
    · exact rank_assemble_of_lt hlt
        (le_mantissaOf (hpos.trans_le h) ((minExponent_le_exponentOf x).trans_lt hlt))
    · unfold nearest
      rw [← heq]
      refine rank_assemble_mono ?_ (mantissaOf_le y)
      unfold mantissaOf
      rw [← heq]
      exact nearestEven_mono (div_le_div_of_nonneg_right h (zpow_pos (by norm_num) _).le)

end Nearest

/-! ## The rounding of the model -/

section Rounding

variable {spec : Format}

theorem log_eq {x : ℚ} {m : ℕ} {e : ℤ} (hm : 0 < m) (hbelow : m ≤ x / 2 ^ e)
    (habove : x / 2 ^ e < m + 1) : Int.log 2 x = m.log2 + e := by
  have hpow : (0 : ℚ) < 2 ^ e := zpow_pos (by norm_num) _
  have hlow : (2 : ℚ) ^ ((m.log2 : ℤ) + e) ≤ x := by
    rw [zpow_add₀ (by norm_num), ← le_div_iff₀ hpow, zpow_natCast]
    exact le_trans (by exact_mod_cast Nat.log2_self_le hm.ne') hbelow
  have hhigh : x < (2 : ℚ) ^ ((m.log2 : ℤ) + e + 1) := by
    rw [add_right_comm, zpow_add₀ (by norm_num), ← div_lt_iff₀ hpow]
    refine habove.trans_le ?_
    exact_mod_cast Nat.lt_log2_self (n := m)
  have hx : 0 < x := (zpow_pos (by norm_num) _).trans_le hlow
  refine le_antisymm (Int.lt_add_one_iff.1 ?_) ?_
  · exact (Int.lt_zpow_iff_log_lt (by norm_num : 1 < 2) hx).1 (by exact_mod_cast hhigh)
  · exact (Int.zpow_le_iff_le_log (by norm_num : 1 < 2) hx).1 (by exact_mod_cast hlow)

theorem targetExponent_of_pos {x : ℚ} {m : ℕ} {e : ℤ} (hm : 0 < m) (hbelow : m ≤ x / 2 ^ e)
    (habove : x / 2 ^ e < m + 1) :
    spec.targetExponent (totalExponent m e) = exponentOf spec x := by
  rw [exponentOf, log_eq hm hbelow habove, totalExponent]
  congr 1
  omega

/-- Nothing but a rest: the exponent is the least one. -/
theorem targetExponent_of_zero {x : ℚ} {e : ℤ} (hx : 0 < x) (habove : x / 2 ^ e < 1)
    (he : e ≤ exponentOf spec x) :
    spec.targetExponent (totalExponent 0 e) = exponentOf spec x := by
  have hlog : Int.log 2 x < e := by
    rw [← Int.lt_zpow_iff_log_lt (by norm_num : 1 < 2) hx]
    exact_mod_cast (div_lt_one (zpow_pos (by norm_num) _)).1 habove
  have hbits := mantissaBits_eq spec
  unfold exponentOf Format.targetExponent at *
  rw [totalExponent, Nat.log2_zero]
  omega

theorem standsFor_shiftToExponent {x : ℚ} {m : ℕ} {e t : ℤ} {accuracy : Accuracy}
    (h : StandsFor (.ofMantissaAndAccuracy m accuracy) (x / 2 ^ e)) (he : e ≤ t) :
    ∃ em, shiftToExponent m e accuracy t = (em, t) ∧ StandsFor em (x / 2 ^ t) := by
  obtain ⟨n, rfl⟩ := Int.exists_add_of_le he
  refine ⟨ExtendedMantissa.ofMantissaAndAccuracy m accuracy >>> n, ?_, ?_⟩
  · unfold shiftToExponent
    rw [show (e + (n : ℤ) - e).toNat = n by omega]
  · rw [zpow_add₀ (by norm_num), ← div_div, zpow_natCast]
    exact h.shiftRight n

/-- After rounding only a mantissa with a bit too many is shifted. -/
theorem shift_rounded {e : ℤ} {m : ℕ} (hm : m ≤ 2 ^ spec.mantissaBits) (he : spec.minExponent ≤ e) :
    shiftToTargetExponent spec m e .exact =
      if m = 2 ^ spec.mantissaBits then
        (⟨2 ^ spec.mantissaBitsWithoutImplicit, false, false⟩, e + 1)
      else (⟨m, false, false⟩, e) := by
  have hbits := mantissaBits_eq spec
  have htotal : spec.targetExponent (totalExponent m e)
      = max (m.log2 + 1 + e - spec.mantissaBits) spec.minExponent := rfl
  unfold shiftToTargetExponent shiftToExponent
  dsimp only
  split
  · next hfull =>
    have hlog : m.log2 = spec.mantissaBits := by rw [hfull, Nat.log2_two_pow]
    rw [show (spec.targetExponent (totalExponent m e) - e).toNat = 1 by rw [htotal, hlog]; omega]
    change (ExtendedMantissa.mk (m / 2) (m % 2 != 0) (false || false), e + 1) = _
    rw [hfull, two_pow_mantissaBits, Nat.mul_div_cancel_left _ two_pos, Nat.mul_mod_right]
    rfl
  · next hfull =>
    have hlog : m.log2 < spec.mantissaBits := by
      rcases Nat.eq_zero_or_pos m with rfl | hpos
      · rw [Nat.log2_zero]
        omega
      · exact (Nat.log2_lt hpos.ne').2 (lt_of_le_of_ne hm hfull)
    rw [show (spec.targetExponent (totalExponent m e) - e).toNat = 0 by rw [htotal]; omega]
    change (ExtendedMantissa.mk m false false, e + 0) = _
    rw [add_zero]

theorem roundWithAccuracy_eq {x : ℚ} {m : ℕ} {e : ℤ} {accuracy : Accuracy} (hx : 0 < x)
    (h : StandsFor (.ofMantissaAndAccuracy m accuracy) (x / 2 ^ e)) (he : e ≤ exponentOf spec x) :
    roundWithAccuracy spec .positive m e accuracy = nearest spec x := by
  have hmantissa : (ExtendedMantissa.ofMantissaAndAccuracy m accuracy).mantissa = m := by
    cases accuracy with
    | exact => rfl
    | inexact o => cases o <;> rfl
  have hbelow := h.below
  have habove := h.above
  rw [hmantissa] at hbelow habove
  have htarget : spec.targetExponent (totalExponent m e) = exponentOf spec x := by
    rcases Nat.eq_zero_or_pos m with rfl | hm
    · rw [Nat.cast_zero, zero_add] at habove
      exact targetExponent_of_zero hx habove he
    · exact targetExponent_of_pos hm hbelow habove
  obtain ⟨em, hshift, hem⟩ := standsFor_shiftToExponent h he
  have hrounded : em.roundedMantissa = mantissaOf spec x := hem.roundedMantissa
  unfold roundWithAccuracy
  rw [shiftToTargetExponent, htarget, hshift]
  dsimp only
  have hleast : spec.minExponent ≤ exponentOf spec x := minExponent_le_exponentOf x
  have hagain := shift_rounded (mantissaOf_le x) hleast
  rw [hrounded]
  unfold nearest
  rcases assemble_cases spec (mantissaOf spec x) with hzero | hfull | ⟨hpos, hne⟩
  · rw [if_neg (hzero ▸ (Nat.two_pow_pos _).ne)] at hagain
    rw [hagain, hzero, assemble_zero]
    exact dif_pos rfl
  · rw [if_pos hfull] at hagain
    rw [hagain, hfull, assemble_full]
    exact dif_neg (Nat.two_pow_pos _).ne'
  · rw [if_neg hne] at hagain
    rw [hagain, assemble_of_ne _ hpos hne]
    exact dif_neg hpos.ne'

end Rounding

end Ieee
