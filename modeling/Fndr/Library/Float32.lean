import Fndr.Library.Amounts

set_option autoImplicit false

/-! # The order of `Float32` arithmetic

Packing a float into its bits loses nothing but what is too large, which becomes infinity
(`stored_of_fits`), so it keeps the order as rounding does. With it sums of floats that are not
negative keep the order (`float32_add_mono`), so do multiples by a weight (`float32_mul_mono`), and
a ratio of counts is from zero to one (`float32_ratio_le_one`). -/

namespace Ieee

open Float.Model Float.Model.UnpackedFloat

/-! ## Packing -/

section Packing

variable {spec : Format}

variable (spec) in
theorem minExponent_eq :
    spec.minExponent = 1 - (spec.exponentBias + spec.mantissaBitsWithoutImplicit) := by
  have hpow : 0 < 2 ^ (spec.exponentBits - 1) := Nat.two_pow_pos _
  have hbits := mantissaBits_eq spec
  have hbias : (spec.exponentBias : ℤ) = 2 ^ (spec.exponentBits - 1) - 1 := by
    unfold Format.exponentBias
    rw [Nat.cast_sub hpow, Nat.cast_pow, Nat.cast_ofNat, Nat.cast_one]
  unfold Format.minExponent
  omega

theorem unpackSign_packComponents {sign : Sign} {exponent : BitVec spec.exponentBits}
    {mantissa : BitVec spec.mantissaBitsWithoutImplicit} :
    unpackSign (packComponents spec sign exponent mantissa) = sign.toBitVec := by
  delta unpackSign packComponents
  ext i hi
  have hfirst : i = 0 := by omega
  simp [BitVec.getLsbD_append, BitVec.getElem_append, hfirst]

theorem ofBitVec_toBitVec (sign : Sign) : Sign.ofBitVec sign.toBitVec = sign := by
  cases sign <;> rfl

/-- A float from the three fields of its bits. -/
def decode (sign : Sign) (exponent : BitVec spec.exponentBits)
    (mantissa : BitVec spec.mantissaBitsWithoutImplicit) : UnpackedFloat :=
  if exponent = -1#_ then
    if mantissa = 0#_ then .infinity sign else .notANumber
  else if exponent = 0#_ then
    if h : mantissa = 0#_ then .zero sign
    else .finite sign mantissa.toNat
      (exponent.toNat - (spec.exponentBias + spec.mantissaBitsWithoutImplicit) + 1)
      (Nat.pos_of_ne_zero (fun hnone => h (BitVec.eq_of_toNat_eq hnone)))
  else .finite sign (1#1 ++ mantissa).toNat
    (exponent.toNat - (spec.exponentBias + spec.mantissaBitsWithoutImplicit)) (by simp)

theorem unpack_eq_decode (b : BitVec spec.numBits) :
    UnpackedFloat.unpack spec b
      = decode (.ofBitVec (unpackSign b)) (unpackExponent b) (unpackMantissa b) := rfl

theorem unpack_packComponents (sign : Sign) (exponent : BitVec spec.exponentBits)
    (mantissa : BitVec spec.mantissaBitsWithoutImplicit) :
    UnpackedFloat.unpack spec (packComponents spec sign exponent mantissa)
      = decode sign exponent mantissa := by
  rw [unpack_eq_decode, unpackSign_packComponents, ofBitVec_toBitVec, unpackExponent_packComponents,
    unpackMantissa_packComponents]

theorem zero_ne_ones : (0#_ : BitVec spec.exponentBits) ≠ -1#_ := by
  intro h
  have hones := congrArg BitVec.toNat h
  have hpow := Nat.one_lt_two_pow spec.he.ne'
  rw [BitVec.neg_one_eq_allOnes, BitVec.toNat_allOnes, BitVec.toNat_zero] at hones
  omega

/-- What is left of a float when it is stored. -/
def stored (spec : Format) (f : UnpackedFloat) : UnpackedFloat :=
  UnpackedFloat.unpack spec (UnpackedFloat.pack spec f)

theorem stored_zero (sign : Sign) : stored spec (.zero sign) = .zero sign := by
  change UnpackedFloat.unpack spec (packComponents spec sign 0#_ 0#_) = _
  rw [unpack_packComponents, decode, if_neg zero_ne_ones, if_pos rfl, dif_pos rfl]

theorem stored_infinity (sign : Sign) : stored spec (.infinity sign) = .infinity sign := by
  change UnpackedFloat.unpack spec (packComponents spec sign (-1#_) 0#_) = _
  rw [unpack_packComponents, decode, if_pos rfl, if_pos rfl]

theorem stored_eq {m biased : ℕ} {e : ℤ} (hm : 0 < m)
    (h : e + spec.exponentBias + spec.mantissaBitsWithoutImplicit = biased) :
    stored spec (.finite .positive m e hm) = UnpackedFloat.unpack spec
      (if 2 ^ spec.exponentBits ≤ biased + 1 then packedInfinity spec .positive
      else if m.log2 + 1 = spec.mantissaBits then
        packComponents spec .positive (.ofNat _ biased) (.ofNat _ m)
      else packComponents spec .positive 0#_ (.ofNat _ m)) := by
  rw [← Int.toNat_natCast biased, ← h]
  rfl

theorem finite_congr {sign : Sign} {m m' : ℕ} {e e' : ℤ} {hm : 0 < m} {hm' : 0 < m'} (h : m = m')
    (he : e = e') : UnpackedFloat.finite sign m e hm = .finite sign m' e' hm' := by
  subst h he
  rfl

theorem toNat_implicit (m : BitVec spec.mantissaBitsWithoutImplicit) :
    (1#1 ++ m).toNat = 2 ^ spec.mantissaBitsWithoutImplicit + m.toNat := by
  rw [BitVec.toNat_append, ← Nat.shiftLeft_add_eq_or_of_lt m.isLt, BitVec.toNat_ofNat,
    Nat.shiftLeft_eq]
  norm_num

theorem unpack_normal {sign : Sign} {m biased : ℕ} (hm : 0 < m)
    (hfull : 2 ^ spec.mantissaBitsWithoutImplicit ≤ m) (hlt : m < 2 ^ spec.mantissaBits)
    (hpos : 0 < biased) (hmax : biased + 1 < 2 ^ spec.exponentBits) :
    UnpackedFloat.unpack spec (packComponents spec sign (.ofNat _ biased) (.ofNat _ m))
      = .finite sign m (biased - (spec.exponentBias + spec.mantissaBitsWithoutImplicit)) hm := by
  have hpow := two_pow_mantissaBits spec
  have hexponent : (BitVec.ofNat spec.exponentBits biased).toNat = biased := by
    rw [BitVec.toNat_ofNat, Nat.mod_eq_of_lt (by omega)]
  have hones : BitVec.ofNat spec.exponentBits biased ≠ -1#_ := by
    intro heq
    rw [heq, BitVec.neg_one_eq_allOnes, BitVec.toNat_allOnes] at hexponent
    omega
  have hzero : BitVec.ofNat spec.exponentBits biased ≠ 0#_ := by
    intro heq
    rw [heq, BitVec.toNat_zero] at hexponent
    omega
  have hmantissa : (1#1 ++ BitVec.ofNat spec.mantissaBitsWithoutImplicit m).toNat = m := by
    rw [toNat_implicit, BitVec.toNat_ofNat, Nat.mod_eq_sub_mod hfull, Nat.mod_eq_of_lt (by omega)]
    omega
  rw [unpack_packComponents, decode, if_neg hones, if_neg hzero]
  exact finite_congr hmantissa (by rw [hexponent])

theorem unpack_subnormal {sign : Sign} {m : ℕ} (hm : 0 < m)
    (hlt : m < 2 ^ spec.mantissaBitsWithoutImplicit) :
    UnpackedFloat.unpack spec (packComponents spec sign 0#_ (.ofNat _ m))
      = .finite sign m (0 - (spec.exponentBias + spec.mantissaBitsWithoutImplicit) + 1) hm := by
  have hmantissa : (BitVec.ofNat spec.mantissaBitsWithoutImplicit m).toNat = m := by
    rw [BitVec.toNat_ofNat, Nat.mod_eq_of_lt hlt]
  have hzero : BitVec.ofNat spec.mantissaBitsWithoutImplicit m ≠ 0#_ := by
    intro heq
    rw [heq, BitVec.toNat_zero] at hmantissa
    omega
  rw [unpack_packComponents, decode, if_neg zero_ne_ones, if_pos rfl, dif_neg hzero]
  exact finite_congr hmantissa (by rw [BitVec.toNat_zero, Nat.cast_zero])

/-- An exponent that the format can store. -/
def Fits (spec : Format) (e : ℤ) : Prop :=
  e + spec.exponentBias + spec.mantissaBitsWithoutImplicit + 1 < 2 ^ spec.exponentBits

theorem exists_biased {e : ℤ} (h : spec.minExponent ≤ e) :
    ∃ biased : ℕ, 0 < biased ∧
      e + spec.exponentBias + spec.mantissaBitsWithoutImplicit = biased := by
  have hexp := minExponent_eq spec
  obtain ⟨biased, hbiased⟩ : ∃ biased : ℕ,
      e + spec.exponentBias + spec.mantissaBitsWithoutImplicit = biased :=
    Int.eq_ofNat_of_zero_le (by omega)
  exact ⟨biased, by omega, hbiased⟩

/-- A number is stored as it is. -/
theorem stored_of_fits {m : ℕ} {e : ℤ} {hm : 0 < m} (h : IsAmount spec (.finite .positive m e hm))
    (hfits : Fits spec e) : stored spec (.finite .positive m e hm) = .finite .positive m e hm := by
  obtain ⟨hlt, hleast, hfull⟩ := h
  obtain ⟨biased, hpos, hbiased⟩ := exists_biased hleast
  have hbits := mantissaBits_eq spec
  have hexp := minExponent_eq spec
  have hmax : biased + 1 < 2 ^ spec.exponentBits := by
    rw [Fits, hbiased] at hfits
    exact_mod_cast hfits
  rw [stored_eq hm hbiased, if_neg hmax.not_ge]
  by_cases hlog : m.log2 + 1 = spec.mantissaBits
  · have hlow : 2 ^ spec.mantissaBitsWithoutImplicit ≤ m := (Nat.le_log2 hm.ne').1 (by omega)
    rw [if_pos hlog, unpack_normal hm hlow hlt hpos hmax]
    exact finite_congr rfl (by omega)
  · have hlow : m < 2 ^ spec.mantissaBitsWithoutImplicit := by
      have := (Nat.log2_lt hm.ne').2 hlt
      exact (Nat.log2_lt hm.ne').1 (by omega)
    rw [if_neg hlog, unpack_subnormal hm hlow]
    exact finite_congr rfl (by omega)

/-- Or it is too large. -/
theorem stored_of_not_fits {m : ℕ} {e : ℤ} {hm : 0 < m}
    (h : IsAmount spec (.finite .positive m e hm)) (hfits : ¬ Fits spec e) :
    stored spec (.finite .positive m e hm) = .infinity .positive := by
  obtain ⟨biased, -, hbiased⟩ := exists_biased h.2.1
  have hmax : 2 ^ spec.exponentBits ≤ biased + 1 := by
    rw [Fits, hbiased] at hfits
    exact_mod_cast not_lt.1 hfits
  rw [stored_eq hm hbiased, if_pos hmax]
  exact stored_infinity .positive

theorem isAmount_unpack {b : BitVec spec.numBits}
    (h : (UnpackedFloat.zero .positive).le (UnpackedFloat.unpack spec b) = true) :
    IsAmount spec (UnpackedFloat.unpack spec b)
      ∨ UnpackedFloat.unpack spec b = .infinity .positive := by
  have hexp := minExponent_eq spec
  have hpow := two_pow_mantissaBits spec
  rw [unpack_eq_decode] at h ⊢
  generalize Sign.ofBitVec (unpackSign b) = sign at h ⊢
  generalize unpackExponent b = exponent at h ⊢
  generalize unpackMantissa b = mantissa at h ⊢
  have hexponent := exponent.isLt
  have hmantissa := mantissa.isLt
  by_cases hones : exponent = -1#_
  · rw [decode, if_pos hones] at h ⊢
    by_cases hinf : mantissa = 0#_
    · rw [if_pos hinf] at h ⊢
      cases sign with
      | negative => exact absurd h (by decide)
      | positive => exact Or.inr rfl
    · rw [if_neg hinf] at h
      exact absurd h (by decide)
  · by_cases hzero : exponent = 0#_
    · rw [decode, if_neg hones, if_pos hzero] at h ⊢
      by_cases hsub : mantissa = 0#_
      · rw [dif_pos hsub]
        exact Or.inl trivial
      · rw [dif_neg hsub] at h ⊢
        cases sign with
        | negative => exact absurd h Bool.false_ne_true
        | positive =>
            refine Or.inl ⟨by omega, ?_, Or.inr ?_⟩ <;> rw [hexp, hzero, BitVec.toNat_zero] <;> omega
    · rw [decode, if_neg hones, if_neg hzero] at h ⊢
      cases sign with
      | negative => exact absurd h Bool.false_ne_true
      | positive =>
          have hpos : 0 < exponent.toNat :=
            Nat.pos_of_ne_zero (fun hnone =>
              hzero (BitVec.eq_of_toNat_eq (hnone.trans BitVec.toNat_zero.symm)))
          refine Or.inl ⟨?_, by omega, Or.inl ?_⟩
          · rw [toNat_implicit]
            omega
          · rw [toNat_implicit]
            omega

end Packing

/-! ## Stored results -/

section Stored

variable {spec : Format}

/-- No negative number and not `NaN`. -/
def IsNonneg (spec : Format) (f : UnpackedFloat) : Prop := IsAmount spec f ∨ f = .infinity .positive

theorem rank_zero_le {f : UnpackedFloat} (h : IsNonneg spec f) :
    rank (.zero .positive) ≤ rank f := by
  rcases h with h | rfl
  · rcases h.zero_or_positive with ⟨sign, rfl⟩ | ⟨m, e, hm, rfl⟩
    · exact le_rfl
    · exact rank_zero_le_finite .positive hm
  · decide

theorem rank_le_infinity {f : UnpackedFloat} (h : IsNonneg spec f) :
    rank f ≤ rank (.infinity .positive) := by
  rcases h with h | rfl
  · rcases h.zero_or_positive with ⟨sign, rfl⟩ | ⟨m, e, hm, rfl⟩
    · exact Prod.Lex.le_iff.2 (Or.inl (show (0 : ℤ) < 2 by norm_num))
    · exact Prod.Lex.le_iff.2 (Or.inl (show (1 : ℤ) < 2 by norm_num))
  · exact le_rfl

theorem isAmount_of_rank_le {f g : UnpackedFloat} (hf : IsNonneg spec f) (hg : IsAmount spec g)
    (h : rank f ≤ rank g) : IsAmount spec f := by
  refine hf.resolve_right ?_
  rintro rfl
  rcases hg.zero_or_positive with ⟨sign, rfl⟩ | ⟨m, e, hm, rfl⟩
  · exact absurd (class_le_of_rank_le h) (show ¬ (2 : ℤ) ≤ 0 by norm_num)
  · exact absurd (class_le_of_rank_le h) (show ¬ (2 : ℤ) ≤ 1 by norm_num)

theorem IsNonneg.ne_notANumber {f : UnpackedFloat} (h : IsNonneg spec f) : f ≠ .notANumber := by
  rintro rfl
  exact h.elim id nofun

theorem isNonneg_stored {f : UnpackedFloat} (h : IsAmount spec f) :
    IsNonneg spec (stored spec f) := by
  rcases h.zero_or_positive with ⟨sign, rfl⟩ | ⟨m, e, hm, rfl⟩
  · rw [stored_zero]
    exact Or.inl trivial
  · by_cases hfits : Fits spec e
    · rw [stored_of_fits h hfits]
      exact Or.inl h
    · rw [stored_of_not_fits h hfits]
      exact Or.inr rfl

/-- **Storing keeps the order.** -/
theorem rank_stored_mono {f g : UnpackedFloat} (hf : IsAmount spec f) (hg : IsAmount spec g)
    (h : rank f ≤ rank g) : rank (stored spec f) ≤ rank (stored spec g) := by
  rcases hf.zero_or_positive with ⟨sign, rfl⟩ | ⟨m, e, hm, rfl⟩
  · rw [stored_zero]
    exact rank_zero_le (isNonneg_stored hg)
  · rcases hg.zero_or_positive with ⟨sign, rfl⟩ | ⟨m', e', hm', rfl⟩
    · exact absurd (class_le_of_rank_le h) (show ¬ (1 : ℤ) ≤ 0 by norm_num)
    · have hexp : e ≤ e' := (rank_finite_le_iff.1 h).elim le_of_lt (fun h => h.1.le)
      by_cases hfits' : Fits spec e'
      · have hfits : Fits spec e := by
          unfold Fits at hfits' ⊢
          omega
        rw [stored_of_fits hf hfits, stored_of_fits hg hfits']
        exact h
      · rw [stored_of_not_fits hg hfits']
        exact rank_le_infinity (isNonneg_stored hf)

theorem isAmount_unsigned {f : UnpackedFloat} : IsAmount spec (unsigned f) ↔ IsAmount spec f := by
  cases f <;> exact Iff.rfl

theorem rank_stored_unsigned (f : UnpackedFloat) :
    rank (stored spec (unsigned f)) = rank (stored spec f) := by
  cases f with
  | zero sign =>
      rw [unsigned, stored_zero, stored_zero]
      rfl
  | _ => rfl

/-- Results that are rounded and stored are in the order of the numbers. -/
theorem rank_stored_le {f g : UnpackedFloat} {x y : ℚ} (hx : 0 ≤ x) (h : x ≤ y)
    (hf : unsigned f = nearest spec x) (hg : unsigned g = nearest spec y) :
    IsNonneg spec (stored spec f) ∧ rank (stored spec f) ≤ rank (stored spec g) := by
  have hamount : ∀ {z : ℚ}, 0 ≤ z → IsAmount spec (nearest spec z) := isAmount_nearest
  constructor
  · exact isNonneg_stored (isAmount_unsigned.1 (hf ▸ hamount hx))
  · rw [← rank_stored_unsigned f, ← rank_stored_unsigned g, hf, hg]
    exact rank_stored_mono (hamount hx) (hamount (hx.trans h)) (rank_nearest_mono hx h)

theorem stored_add_infinity {f : UnpackedFloat} (h : IsNonneg spec f) :
    stored spec (UnpackedFloat.add spec (.infinity .positive) f) = .infinity .positive ∧
      stored spec (UnpackedFloat.add spec f (.infinity .positive)) = .infinity .positive := by
  rcases h with h | rfl
  · rcases h.zero_or_positive with ⟨sign, rfl⟩ | ⟨m, e, hm, rfl⟩ <;>
      exact ⟨stored_infinity _, stored_infinity _⟩
  · exact ⟨stored_infinity _, stored_infinity _⟩

theorem isNonneg_stored_add {a c : UnpackedFloat} (ha : IsNonneg spec a) (hc : IsNonneg spec c) :
    IsNonneg spec (stored spec (UnpackedFloat.add spec a c)) := by
  rcases ha with ha | rfl
  · rcases hc with hc | rfl
    · exact (rank_stored_le (add_nonneg (value_nonneg a) (value_nonneg c)) le_rfl (add_eq ha hc)
        (add_eq ha hc)).1
    · exact Or.inr (stored_add_infinity (Or.inl ha)).2
  · exact Or.inr (stored_add_infinity hc).1

/-- **Sums keep the order.** -/
theorem rank_add_mono {a b c d : UnpackedFloat} (ha : IsNonneg spec a) (hb : IsNonneg spec b)
    (hc : IsNonneg spec c) (hd : IsNonneg spec d) (hab : rank a ≤ rank b) (hcd : rank c ≤ rank d) :
    rank (stored spec (UnpackedFloat.add spec a c))
      ≤ rank (stored spec (UnpackedFloat.add spec b d)) := by
  rcases hb with hb | rfl
  · rcases hd with hd | rfl
    · have ha' := isAmount_of_rank_le ha hb hab
      have hc' := isAmount_of_rank_le hc hd hcd
      exact (rank_stored_le (add_nonneg (value_nonneg a) (value_nonneg c))
        (add_le_add (value_le_of_rank_le ha' hb hab) (value_le_of_rank_le hc' hd hcd))
        (add_eq ha' hc') (add_eq hb hd)).2
    · rw [(stored_add_infinity (Or.inl hb)).2]
      exact rank_le_infinity (isNonneg_stored_add ha hc)
  · rw [(stored_add_infinity hd).1]
    exact rank_le_infinity (isNonneg_stored_add ha hc)

/-- **Multiples keep the order.** -/
theorem mul_mono {a b c : UnpackedFloat} (ha : IsNonneg spec a) (hb : IsNonneg spec b)
    (hc : IsAmount spec c) (hpos : 0 < value c) (hab : rank a ≤ rank b) :
    IsNonneg spec (stored spec (UnpackedFloat.mul spec a c)) ∧
      rank (stored spec (UnpackedFloat.mul spec a c))
        ≤ rank (stored spec (UnpackedFloat.mul spec b c)) := by
  have hinfinity : stored spec (UnpackedFloat.mul spec (.infinity .positive) c)
      = .infinity .positive := by
    rcases hc.zero_or_positive with ⟨sign, rfl⟩ | ⟨m, e, hm, rfl⟩
    · exact absurd hpos (lt_irrefl _)
    · exact stored_infinity .positive
  have hresult : ∀ {f : UnpackedFloat}, IsNonneg spec f →
      IsNonneg spec (stored spec (UnpackedFloat.mul spec f c)) := by
    rintro f (hf | rfl)
    · exact (rank_stored_le (mul_nonneg (value_nonneg f) (value_nonneg c)) le_rfl (mul_eq hf hc)
        (mul_eq hf hc)).1
    · exact Or.inr hinfinity
  refine ⟨hresult ha, ?_⟩
  rcases hb with hb | rfl
  · have ha' := isAmount_of_rank_le ha hb hab
    exact (rank_stored_le (mul_nonneg (value_nonneg a) (value_nonneg c))
      (mul_le_mul_of_nonneg_right (value_le_of_rank_le ha' hb hab) (value_nonneg c))
      (mul_eq ha' hc) (mul_eq hb hc)).2
  · rw [hinfinity]
    exact rank_le_infinity (hresult ha)

/-- **A ratio of a smaller number to a greater one is at most one.** -/
theorem div_le_one {a b one : UnpackedFloat} (ha : IsAmount spec a) (hb : IsAmount spec b)
    (hpos : 0 < value b) (hab : value a ≤ value b) (hone : IsAmount spec one)
    (hvalue : value one = 1) :
    IsNonneg spec (stored spec (UnpackedFloat.div spec a b)) ∧
      rank (stored spec (UnpackedFloat.div spec a b)) ≤ rank (stored spec one) :=
  rank_stored_le (div_nonneg (value_nonneg a) hpos.le) ((div_le_one₀ hpos).2 hab)
    (div_eq ha hb hpos) (by rw [← hvalue, nearest_value hone])

/-- A number with an exponent in range is stored as it is rounded. -/
theorem stored_nearest {x : ℚ} (hx : 0 ≤ x) (h : Fits spec (exponentOf spec x + 1)) :
    stored spec (nearest spec x) = nearest spec x := by
  have hamount : IsAmount spec (nearest spec x) := isAmount_nearest hx
  have hfits : Fits spec (exponentOf spec x) := by
    unfold Fits at h ⊢
    omega
  unfold nearest at hamount ⊢
  rcases assemble_cases spec (mantissaOf spec x) with hzero | hfull | ⟨hm, hne⟩
  · rw [hzero, assemble_zero, stored_zero]
  · rw [hfull, assemble_full] at hamount ⊢
    exact stored_of_fits hamount h
  · rw [assemble_of_ne _ hm hne] at hamount ⊢
    exact stored_of_fits hamount hfits

end Stored

/-! ## Floats of 32 bits -/

section Float32

/-- A float as the model reads it. -/
def unpacked (a : Float32) : UnpackedFloat := a.toModel.unpack

theorem float32_le_iff {a b : Float32} : a ≤ b ↔ (unpacked a).le (unpacked b) = true := by
  change Float32.le a b = true ↔ _
  exact decide_eq_true_iff

theorem float32_lt_iff {a b : Float32} : a < b ↔ (unpacked a).lt (unpacked b) = true := by
  change Float32.lt a b = true ↔ _
  exact decide_eq_true_iff

theorem unpacked_zero : unpacked 0.0 = .zero .positive := rfl

theorem unpacked_one : unpacked 1.0 = .finite .positive (2 ^ 23) (-23) (Nat.two_pow_pos 23) := rfl

theorem unpacked_add (a b : Float32) :
    unpacked (a + b)
      = stored .binary32 (UnpackedFloat.add .binary32 (unpacked a) (unpacked b)) := rfl

theorem unpacked_mul (a b : Float32) :
    unpacked (a * b)
      = stored .binary32 (UnpackedFloat.mul .binary32 (unpacked a) (unpacked b)) := rfl

theorem unpacked_div (a b : Float32) :
    unpacked (a / b)
      = stored .binary32 (UnpackedFloat.div .binary32 (unpacked a) (unpacked b)) := rfl

theorem unpacked_toFloat32 (n : UInt64) :
    unpacked n.toFloat32 = stored .binary32 (UnpackedFloat.ofNat .binary32 n.toNat) := rfl

theorem float32_le_trans {a b c : Float32} (h : a ≤ b) (h' : b ≤ c) : a ≤ c :=
  float32_le_iff.2 (float_le_trans (float32_le_iff.1 h) (float32_le_iff.1 h'))

theorem rank_le_of_le {a b : Float32} (h : a ≤ b) : rank (unpacked a) ≤ rank (unpacked b) :=
  (le_iff_rank_le (ne_notANumber_of_le (float32_le_iff.1 h)).1
    (ne_notANumber_of_le (float32_le_iff.1 h)).2).1 (float32_le_iff.1 h)

theorem le_of_rank_le {a b : Float32} (ha : IsNonneg .binary32 (unpacked a))
    (hb : IsNonneg .binary32 (unpacked b)) (h : rank (unpacked a) ≤ rank (unpacked b)) : a ≤ b :=
  float32_le_iff.2 ((le_iff_rank_le ha.ne_notANumber hb.ne_notANumber).2 h)

theorem nonneg_iff {a : Float32} : 0.0 ≤ a ↔ IsNonneg .binary32 (unpacked a) := by
  constructor
  · intro h
    rw [float32_le_iff, unpacked_zero] at h
    exact isAmount_unpack h
  · intro h
    exact le_of_rank_le (unpacked_zero ▸ Or.inl trivial) h (unpacked_zero ▸ rank_zero_le h)

theorem float32_le_of_lt {a b : Float32} (h : a < b) : a ≤ b := by
  rw [float32_lt_iff, UnpackedFloat.lt, beq_iff_eq] at h
  rw [float32_le_iff, UnpackedFloat.le, h]
  rfl

/-- Sums of floats keep the order. -/
theorem float32_add_mono {a b c d : Float32} (ha : 0.0 ≤ a) (hab : a ≤ b) (hc : 0.0 ≤ c)
    (hcd : c ≤ d) : 0.0 ≤ a + c ∧ a + c ≤ b + d := by
  have ha' := nonneg_iff.1 ha
  have hb' := nonneg_iff.1 (float32_le_trans ha hab)
  have hc' := nonneg_iff.1 hc
  have hd' := nonneg_iff.1 (float32_le_trans hc hcd)
  have hsum : ∀ {f g : Float32}, IsNonneg .binary32 (unpacked f) →
      IsNonneg .binary32 (unpacked g) → IsNonneg .binary32 (unpacked (f + g)) := by
    intro f g hf hg
    rw [unpacked_add]
    exact isNonneg_stored_add hf hg
  refine ⟨nonneg_iff.2 (hsum ha' hc'), le_of_rank_le (hsum ha' hc') (hsum hb' hd') ?_⟩
  rw [unpacked_add, unpacked_add]
  exact rank_add_mono ha' hb' hc' hd' (rank_le_of_le hab) (rank_le_of_le hcd)

theorem isAmount_one : IsAmount .binary32 (unpacked 1.0) := by
  rw [unpacked_one]
  exact ⟨by decide, by decide, Or.inl (by decide)⟩

theorem value_one : value (unpacked 1.0) = 1 := by
  rw [unpacked_one]
  change ((2 ^ 23 : ℕ) : ℚ) * 2 ^ (-23 : ℤ) = 1
  norm_num

theorem value_pos_of_lt {f : UnpackedFloat} (hf : IsAmount .binary32 f)
    (h : (UnpackedFloat.zero .positive).lt f = true) : 0 < value f := by
  rcases hf.zero_or_positive with ⟨sign, rfl⟩ | ⟨m, e, hm, rfl⟩
  · exact absurd h Bool.false_ne_true
  · exact mul_zpow_pos hm e

/-- Multiples of floats by a positive float of at most one keep the order. -/
theorem float32_mul_mono {a b c : Float32} (ha : 0.0 ≤ a) (hab : a ≤ b) (hc : 0.0 < c)
    (hone : c ≤ 1.0) : 0.0 ≤ a * c ∧ a * c ≤ b * c := by
  have ha' := nonneg_iff.1 ha
  have hb' := nonneg_iff.1 (float32_le_trans ha hab)
  have hc' : IsAmount .binary32 (unpacked c) :=
    isAmount_of_rank_le (nonneg_iff.1 (float32_le_of_lt hc)) isAmount_one (rank_le_of_le hone)
  have hpos := value_pos_of_lt hc' (unpacked_zero ▸ float32_lt_iff.1 hc)
  obtain ⟨hproduct, hle⟩ := mul_mono ha' hb' hc' hpos (rank_le_of_le hab)
  have hgreater := (mul_mono hb' hb' hc' hpos le_rfl).1
  rw [← unpacked_mul] at hproduct hgreater
  rw [← unpacked_mul, ← unpacked_mul] at hle
  exact ⟨nonneg_iff.2 hproduct, le_of_rank_le hproduct hgreater hle⟩

theorem unpacked_count (n : UInt64) : unpacked n.toFloat32 = nearest .binary32 n.toNat := by
  rw [unpacked_toFloat32, ofNat_eq]
  have hlog : Nat.log 2 n.toNat ≤ 64 := (Nat.log_lt_of_lt_pow' (by norm_num) n.toNat_lt).le
  have hexp : exponentOf .binary32 (n.toNat : ℚ) ≤ 41 := by
    rw [exponentOf, Int.log_natCast, Format.targetExponent]
    refine max_le ?_ (by decide)
    rw [show (Format.mantissaBits .binary32 : ℤ) = 24 from rfl]
    omega
  refine stored_nearest (Nat.cast_nonneg _) ?_
  rw [Fits, show (Format.exponentBias .binary32 : ℤ) = 127 from rfl]
  norm_num
  omega

theorem toNat_ofNatClamp (n : ℕ) : (UInt64.ofNatClamp n).toNat = min n (UInt64.size - 1) := by
  rcases lt_or_ge n UInt64.size with h | h
  · rw [UInt64.toNat_ofNatClamp_of_lt h]
    omega
  · rw [UInt64.toNat_ofNatClamp_of_le h]
    omega

theorem ofNatClamp_mono {m n : ℕ} (h : m ≤ n) : UInt64.ofNatClamp m ≤ UInt64.ofNatClamp n := by
  rw [UInt64.le_iff_toNat_le, toNat_ofNatClamp, toNat_ofNatClamp]
  omega

theorem ofNatClamp_pos {n : ℕ} (h : 0 < n) : 0 < UInt64.ofNatClamp n := by
  rw [UInt64.lt_iff_toNat_lt, toNat_ofNatClamp]
  exact lt_min h (by decide)

/-- The ratio of a count to a greater one. -/
theorem float32_ratio_le_one {m n : UInt64} (h : m ≤ n) (hn : 0 < n) :
    0.0 ≤ m.toFloat32 / n.toFloat32 ∧ m.toFloat32 / n.toFloat32 ≤ 1.0 := by
  have hm : IsAmount .binary32 (unpacked m.toFloat32) := by
    rw [unpacked_count]
    exact isAmount_nearest (Nat.cast_nonneg _)
  have hn' : IsAmount .binary32 (unpacked n.toFloat32) := by
    rw [unpacked_count]
    exact isAmount_nearest (Nat.cast_nonneg _)
  have hle : value (unpacked m.toFloat32) ≤ value (unpacked n.toFloat32) := by
    refine value_le_of_rank_le hm hn' ?_
    rw [unpacked_count, unpacked_count]
    exact rank_nearest_mono (Nat.cast_nonneg _) (Nat.cast_le.2 (UInt64.le_iff_toNat_le.1 h))
  have hpos : 0 < value (unpacked n.toFloat32) := by
    refine zero_lt_one.trans_le (value_one.symm.trans_le (value_le_of_rank_le isAmount_one hn' ?_))
    have hone : unpacked 1.0 = nearest .binary32 1 := by
      rw [← value_one, nearest_value isAmount_one]
      rfl
    rw [hone, unpacked_count]
    refine rank_nearest_mono zero_le_one ?_
    exact_mod_cast (UInt64.lt_iff_toNat_lt.1 hn : 0 < n.toNat)
  obtain ⟨hratio, hrank⟩ := div_le_one hm hn' hpos hle isAmount_one value_one
  have hstored : stored .binary32 (unpacked 1.0) = unpacked 1.0 := rfl
  rw [hstored, ← unpacked_div] at hrank
  rw [← unpacked_div] at hratio
  exact ⟨nonneg_iff.2 hratio, le_of_rank_le hratio (Or.inl isAmount_one) hrank⟩

end Float32

end Ieee
