import Fndr.Library.Rounding

set_option autoImplicit false

/-! # Arithmetic on floats that are not negative

A float in its format's own form is what its number is rounded to (`nearest_value`), and floats are
in the order of their numbers (`value_le_of_rank_le`). Sums, products and quotients are the floats
nearest to those of the numbers (`add_eq`, `mul_eq`, `div_eq`). -/

namespace Ieee

open Float.Model Float.Model.UnpackedFloat

/-! ## Amounts -/

section Amounts

variable {spec : Format}

/-- Zero or a positive number in the format's own form. -/
def IsAmount (spec : Format) : UnpackedFloat → Prop
  | .zero _ => True
  | .finite .positive m e _ => m < 2 ^ spec.mantissaBits ∧ spec.minExponent ≤ e ∧
      (2 ^ spec.mantissaBitsWithoutImplicit ≤ m ∨ e = spec.minExponent)
  | _ => False

/-- The number that is meant, without its sign. -/
def value : UnpackedFloat → ℚ
  | .finite _ m e _ => m * 2 ^ e
  | _ => 0

/-- Zero without its sign. -/
def unsigned : UnpackedFloat → UnpackedFloat
  | .zero _ => .zero .positive
  | f => f

theorem value_nonneg (f : UnpackedFloat) : 0 ≤ value f := by
  cases f with
  | finite sign m e hm => exact mul_nonneg (Nat.cast_nonneg _) (zpow_pos (by norm_num) _).le
  | _ => exact le_rfl

theorem mul_zpow_pos {m : ℕ} (hm : 0 < m) (e : ℤ) : (0 : ℚ) < m * 2 ^ e :=
  mul_pos (Nat.cast_pos.2 hm) (zpow_pos (by norm_num) _)

theorem IsAmount.zero_or_positive {f : UnpackedFloat} (h : IsAmount spec f) :
    (∃ sign, f = .zero sign) ∨ ∃ m e, ∃ hm : 0 < m, f = .finite .positive m e hm := by
  cases f with
  | zero sign => exact Or.inl ⟨sign, rfl⟩
  | infinity sign => exact h.elim
  | notANumber => exact h.elim
  | finite sign m e hm =>
      cases sign with
      | negative => exact h.elim
      | positive => exact Or.inr ⟨m, e, hm, rfl⟩

@[simp]
theorem value_zero (sign : Sign) : value (.zero sign) = 0 := rfl

/-- A number is what it is rounded to. -/
theorem nearest_value {f : UnpackedFloat} (h : IsAmount spec f) :
    nearest spec (value f) = unsigned f := by
  rcases h.zero_or_positive with ⟨sign, rfl⟩ | ⟨m, e, hm, rfl⟩
  · exact nearest_zero
  · obtain ⟨hlt, hleast, hfull⟩ := h
    have hpow : (0 : ℚ) < 2 ^ e := zpow_pos (by norm_num) _
    have hquotient : value (.finite .positive m e hm) / 2 ^ e = m :=
      mul_div_cancel_right₀ _ hpow.ne'
    have hexp : exponentOf spec (value (.finite .positive m e hm)) = e := by
      have hlog := (Nat.log2_lt hm.ne').2 hlt
      rw [exponentOf, log_eq hm hquotient.ge (hquotient.trans_lt (lt_add_one _)),
        Format.targetExponent]
      rcases hfull with hfull | hfull
      · have hlog' := (Nat.le_log2 hm.ne').2 hfull
        have hbits := mantissaBits_eq spec
        omega
      · omega
    have hmantissa : mantissaOf spec (value (.finite .positive m e hm)) = m := by
      rw [mantissaOf, hexp, hquotient, nearestEven_natCast]
    rw [nearest, hexp, hmantissa, assemble_of_ne e hm hlt.ne]
    rfl

theorem isAmount_nearest {x : ℚ} (hx : 0 ≤ x) : IsAmount spec (nearest spec x) := by
  rcases hx.eq_or_lt with rfl | hpos
  · rw [nearest_zero]
    trivial
  · have hexp : spec.minExponent ≤ exponentOf spec x := minExponent_le_exponentOf x
    unfold nearest
    rcases assemble_cases spec (mantissaOf spec x) with hzero | hfull | ⟨hm, hne⟩
    · rw [hzero, assemble_zero]
      trivial
    · rw [hfull, assemble_full]
      refine ⟨?_, by omega, Or.inl le_rfl⟩
      rw [two_pow_mantissaBits]
      have := Nat.two_pow_pos spec.mantissaBitsWithoutImplicit
      omega
    · rw [assemble_of_ne _ hm hne]
      refine ⟨lt_of_le_of_ne (mantissaOf_le x) hne, hexp, ?_⟩
      rcases hexp.lt_or_eq with hlt | heq
      · exact Or.inl (le_mantissaOf hpos hlt)
      · exact Or.inr heq.symm

theorem unsigned_nearest (x : ℚ) : unsigned (nearest spec x) = nearest spec x := by
  unfold nearest
  rcases assemble_cases spec (mantissaOf spec x) with hzero | hfull | ⟨hm, hne⟩
  · rw [hzero, assemble_zero]
    rfl
  · rw [hfull, assemble_full]
    rfl
  · rw [assemble_of_ne _ hm hne]
    rfl

/-- **The order of floats is that of the numbers.** -/
theorem value_le_of_rank_le {f g : UnpackedFloat} (hf : IsAmount spec f) (hg : IsAmount spec g)
    (h : rank f ≤ rank g) : value f ≤ value g := by
  rcases hf.zero_or_positive with ⟨sign, rfl⟩ | ⟨m, e, hm, rfl⟩
  · exact value_nonneg g
  · rcases hg.zero_or_positive with ⟨sign, rfl⟩ | ⟨m', e', hm', rfl⟩
    · exact absurd (class_le_of_rank_le h) (show ¬ (1 : ℤ) ≤ 0 by norm_num)
    · rcases rank_finite_le_iff.1 h with hlt | ⟨rfl, hle⟩
      · -- above the least exponent the greater mantissa has all its bits
        have hfull := hg.2.2.resolve_right (by have := hf.2.1; omega)
        have hpow : (2 : ℚ) ^ (e + 1) ≤ 2 ^ e' := zpow_le_zpow_right₀ (by norm_num) hlt
        have hpos : (0 : ℚ) < 2 ^ e := zpow_pos (by norm_num) _
        have hpos' : (0 : ℚ) < 2 ^ (e + 1) := zpow_pos (by norm_num) _
        calc (m : ℚ) * 2 ^ e ≤ ((2 ^ spec.mantissaBits : ℕ) : ℚ) * 2 ^ e :=
              mul_le_mul_of_nonneg_right (Nat.cast_le.2 hf.1.le) hpos.le
          _ = ((2 ^ spec.mantissaBitsWithoutImplicit : ℕ) : ℚ) * 2 ^ (e + 1) := by
              rw [two_pow_mantissaBits, zpow_add_one₀ (by norm_num)]
              push_cast
              ring
          _ ≤ (m' : ℚ) * 2 ^ e' :=
              mul_le_mul (Nat.cast_le.2 hfull) hpow hpos'.le (Nat.cast_nonneg _)
      · exact mul_le_mul_of_nonneg_right (Nat.cast_le.2 hle) (zpow_pos (by norm_num) _).le

/-! ## The operations -/

theorem value_shiftLeft (m n : ℕ) (e : ℤ) : ((m <<< n : ℕ) : ℚ) * 2 ^ (e - n) = m * 2 ^ e := by
  rw [Nat.shiftLeft_eq, Nat.cast_mul, Nat.cast_pow, Nat.cast_ofNat, mul_assoc, ← zpow_natCast,
    ← zpow_add₀ (by norm_num), add_sub_cancel]

theorem normalize_eq (n : ℕ) (e : ℤ) :
    UnpackedFloat.normalize spec n e .positive = nearest spec (n * 2 ^ e) := by
  rcases Nat.eq_zero_or_pos n with rfl | hn
  · rw [show ((0 : ℕ) : ℚ) * 2 ^ e = 0 by rw [Nat.cast_zero, zero_mul], nearest_zero]
    rfl
  · have hpow : (0 : ℚ) < 2 ^ e := zpow_pos (by norm_num) _
    have hquotient : (n : ℚ) * 2 ^ e / 2 ^ e = n := mul_div_cancel_right₀ _ hpow.ne'
    unfold UnpackedFloat.normalize
    rw [compare_gt_iff_gt.2 (Int.natCast_pos.2 hn)]
    dsimp only
    unfold UnpackedFloat.round
    dsimp only
    rw [Int.toNat_natCast,
      targetExponent_of_pos hn hquotient.ge (hquotient.trans_lt (lt_add_one _))]
    unfold decreaseExponent
    dsimp only
    refine roundWithAccuracy_eq (mul_pos (Nat.cast_pos.2 hn) hpow) ?_ (by omega)
    have hshift : (n : ℚ) * 2 ^ e / 2 ^ (e - ((e - exponentOf spec (n * 2 ^ e)).toNat : ℤ))
        = ((n <<< (e - exponentOf spec (n * 2 ^ e)).toNat : ℕ) : ℚ) := by
      rw [div_eq_iff (zpow_pos (by norm_num) _).ne', value_shiftLeft]
    rw [hshift]
    exact standsFor_exact _

/-- Both numbers in the units of the smaller one. -/
theorem add_finite_eq {m m' : ℕ} {e e' : ℤ} (hm : 0 < m) (hm' : 0 < m') :
    UnpackedFloat.add spec (.finite .positive m e hm) (.finite .positive m' e' hm')
      = nearest spec (m * 2 ^ e + m' * 2 ^ e') := by
  have hleft := value_shiftLeft m (e - min e e').toNat e
  have hright := value_shiftLeft m' (e' - min e e').toNat e'
  rw [show e - ((e - min e e').toNat : ℤ) = min e e' by omega] at hleft
  rw [show e' - ((e' - min e e').toNat : ℤ) = min e e' by omega] at hright
  change UnpackedFloat.normalize spec (((m <<< (e - min e e').toNat : ℕ) : ℤ)
    + ((m' <<< (e' - min e e').toNat : ℕ) : ℤ)) (min e e') .positive = _
  rw [← Nat.cast_add, normalize_eq, Nat.cast_add, add_mul, hleft, hright]

theorem add_eq {a b : UnpackedFloat} (ha : IsAmount spec a) (hb : IsAmount spec b) :
    unsigned (UnpackedFloat.add spec a b) = nearest spec (value a + value b) := by
  rcases ha.zero_or_positive with ⟨sign, rfl⟩ | ⟨m, e, hm, rfl⟩
  · rw [value_zero, zero_add, nearest_value hb]
    rcases hb.zero_or_positive with ⟨sign', rfl⟩ | ⟨m', e', hm', rfl⟩
    · cases sign <;> cases sign' <;> rfl
    · rfl
  · rcases hb.zero_or_positive with ⟨sign', rfl⟩ | ⟨m', e', hm', rfl⟩
    · rw [value_zero, add_zero, nearest_value ha]
      rfl
    · rw [add_finite_eq, unsigned_nearest]
      rfl

variable (spec) in
theorem minExponent_nonpos : spec.minExponent ≤ 0 := by
  have hpow : (0 : ℤ) < 2 ^ (spec.exponentBits - 1) := pow_pos (by norm_num) _
  have hbits := mantissaBits_eq spec
  have hm := spec.hm
  unfold Format.minExponent
  omega

/-- A product of mantissas is not too long to be rounded. -/
theorem add_le_exponentOf {m m' : ℕ} {e e' : ℤ} {hm : 0 < m} {hm' : 0 < m'}
    (h : IsAmount spec (.finite .positive m e hm))
    (h' : IsAmount spec (.finite .positive m' e' hm')) :
    e + e' ≤ spec.targetExponent (totalExponent (m * m') (e + e')) := by
  have hbits := mantissaBits_eq spec
  have hleast := minExponent_nonpos spec
  have hpos : m * m' ≠ 0 := (Nat.mul_pos hm hm').ne'
  unfold Format.targetExponent totalExponent
  by_cases hfull : 2 ^ spec.mantissaBitsWithoutImplicit ≤ m * m'
  · have hlog := (Nat.le_log2 hpos).2 hfull
    omega
  · have hleft := h.2.2.resolve_left (fun hle => hfull (hle.trans (Nat.le_mul_of_pos_right _ hm')))
    have hright := h'.2.2.resolve_left (fun hle => hfull (hle.trans (Nat.le_mul_of_pos_left _ hm)))
    omega

theorem mul_finite_eq {m m' : ℕ} {e e' : ℤ} {hm : 0 < m} {hm' : 0 < m'}
    (h : IsAmount spec (.finite .positive m e hm))
    (h' : IsAmount spec (.finite .positive m' e' hm')) :
    UnpackedFloat.mul spec (.finite .positive m e hm) (.finite .positive m' e' hm')
      = nearest spec (m * 2 ^ e * (m' * 2 ^ e')) := by
  have hpow : (0 : ℚ) < 2 ^ (e + e') := zpow_pos (by norm_num) _
  have hproduct : (m : ℚ) * 2 ^ e * (m' * 2 ^ e') = ((m * m' : ℕ) : ℚ) * 2 ^ (e + e') := by
    rw [zpow_add₀ (by norm_num), Nat.cast_mul]
    ring
  have hquotient : ((m * m' : ℕ) : ℚ) * 2 ^ (e + e') / 2 ^ (e + e') = ((m * m' : ℕ) : ℚ) :=
    mul_div_cancel_right₀ _ hpow.ne'
  rw [hproduct]
  refine roundWithAccuracy_eq (mul_pos (Nat.cast_pos.2 (Nat.mul_pos hm hm')) hpow) ?_ ?_
  · rw [hquotient]
    exact standsFor_exact _
  · rw [← targetExponent_of_pos (Nat.mul_pos hm hm') hquotient.ge
      (hquotient.trans_lt (lt_add_one _))]
    exact add_le_exponentOf h h'

theorem mul_eq {a b : UnpackedFloat} (ha : IsAmount spec a) (hb : IsAmount spec b) :
    unsigned (UnpackedFloat.mul spec a b) = nearest spec (value a * value b) := by
  rcases ha.zero_or_positive with ⟨sign, rfl⟩ | ⟨m, e, hm, rfl⟩
  · rw [value_zero, zero_mul, nearest_zero]
    rcases hb.zero_or_positive with ⟨sign', rfl⟩ | ⟨m', e', hm', rfl⟩ <;> rfl
  · rcases hb.zero_or_positive with ⟨sign', rfl⟩ | ⟨m', e', hm', rfl⟩
    · rw [value_zero, mul_zero, nearest_zero]
      rfl
    · rw [mul_finite_eq ha hb, unsigned_nearest]
      rfl

/-- A quotient has the places of its numbers, or one less. -/
theorem totalExponent_sub_le_log {m m' : ℕ} {e e' : ℤ} (hm : 0 < m) (hm' : 0 < m') :
    totalExponent m e - totalExponent m' e' ≤ Int.log 2 ((m : ℚ) * 2 ^ e / (m' * 2 ^ e')) + 1 := by
  have hpos := mul_zpow_pos hm e
  have hpos' := mul_zpow_pos hm' e'
  have hlow : (2 : ℚ) ^ ((m.log2 : ℤ) + e) ≤ m * 2 ^ e := by
    rw [zpow_add₀ (by norm_num), zpow_natCast]
    refine mul_le_mul_of_nonneg_right ?_ (zpow_pos (by norm_num) _).le
    exact_mod_cast Nat.log2_self_le hm.ne'
  have hhigh : (m' : ℚ) * 2 ^ e' ≤ 2 ^ ((m'.log2 : ℤ) + 1 + e') := by
    rw [zpow_add₀ (by norm_num)]
    refine mul_le_mul_of_nonneg_right ?_ (zpow_pos (by norm_num) _).le
    exact_mod_cast (Nat.lt_log2_self (n := m')).le
  have hle : ((2 : ℕ) : ℚ) ^ (totalExponent m e - totalExponent m' e' - 1)
      ≤ (m : ℚ) * 2 ^ e / (m' * 2 ^ e') := by
    rw [Nat.cast_ofNat, le_div_iff₀ hpos']
    refine (mul_le_mul_of_nonneg_left hhigh (zpow_pos (by norm_num) _).le).trans ?_
    rw [← zpow_add₀ (by norm_num), totalExponent, totalExponent]
    refine Eq.trans_le ?_ hlow
    congr 1
    omega
  have := (Int.zpow_le_iff_le_log (by norm_num : 1 < 2) (div_pos hpos hpos')).1 hle
  omega

theorem div_finite_eq {m m' : ℕ} {e e' : ℤ} {hm : 0 < m} {hm' : 0 < m'} :
    UnpackedFloat.div spec (.finite .positive m e hm) (.finite .positive m' e' hm')
      = nearest spec (m * 2 ^ e / (m' * 2 ^ e')) := by
  have hpos : (0 : ℚ) < m * 2 ^ e / (m' * 2 ^ e') :=
    div_pos (mul_zpow_pos hm e) (mul_zpow_pos hm' e')
  -- the exponent of the quotient, and how far the numerator is shifted for it
  let t := min (e - e') (spec.targetExponent (totalExponent m e - totalExponent m' e'))
  have hshift : t = e - e' - ((e - e' - t).toNat : ℤ) := by
    have : t ≤ e - e' := min_le_left _ _
    omega
  have hvalue : (m : ℚ) * 2 ^ e / (m' * 2 ^ e') / 2 ^ t
      = ((m <<< (e - e' - t).toNat : ℕ) : ℚ) / m' := by
    have hpow : (2 : ℚ) ^ e = 2 ^ e' * 2 ^ t * 2 ^ (e - e' - t).toNat := by
      rw [← zpow_natCast, ← zpow_add₀ (by norm_num), ← zpow_add₀ (by norm_num)]
      congr 1
      omega
    have hm'ne : (m' : ℚ) ≠ 0 := (Nat.cast_pos.2 hm').ne'
    rw [Nat.shiftLeft_eq, Nat.cast_mul, Nat.cast_pow, Nat.cast_ofNat, hpow]
    field_simp
  change roundWithAccuracy spec .positive (m <<< (e - e' - t).toNat / m') t
    (accuracyOfFraction (m <<< (e - e' - t).toNat % m') m') = _
  refine roundWithAccuracy_eq hpos ?_ ?_
  · rw [hvalue]
    exact standsFor_fraction _ hm'
  · exact (min_le_right _ _).trans
      (max_le_max_right _ (sub_le_sub_right (totalExponent_sub_le_log hm hm') _))

theorem div_eq {a b : UnpackedFloat} (ha : IsAmount spec a) (hb : IsAmount spec b)
    (hpos : 0 < value b) :
    unsigned (UnpackedFloat.div spec a b) = nearest spec (value a / value b) := by
  rcases hb.zero_or_positive with ⟨sign', rfl⟩ | ⟨m', e', hm', rfl⟩
  · exact absurd hpos (lt_irrefl _)
  · rcases ha.zero_or_positive with ⟨sign, rfl⟩ | ⟨m, e, hm, rfl⟩
    · rw [value_zero, zero_div, nearest_zero]
      rfl
    · rw [div_finite_eq, unsigned_nearest]
      rfl

theorem ofNat_eq (n : ℕ) : UnpackedFloat.ofNat spec n = nearest spec n := by
  rw [UnpackedFloat.ofNat, UnpackedFloat.ofInt, normalize_eq, zpow_zero, mul_one]

end Amounts

end Ieee
