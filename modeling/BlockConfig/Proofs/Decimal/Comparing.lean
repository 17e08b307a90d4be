import BlockConfig.Proofs.Decimal.Packing
import Mathlib.Order.Compare
import Mathlib.Order.WithBot

/-!
Doubles compared.

Every double that is a number has a value: a rational number, or one of the two ends beyond all of them
(`value?`). This file shows that doubles compare like their values, and not at all where one has none
(`compare_unpack`). The operation itself never computes a value: it looks at the signs, then at the
exponents and at the mantissas last. That gives the order of the values because a mantissa is as long as
it can be, so that the larger exponent always belongs to the larger number (`IsDouble.value_lt`).
-/

set_option autoImplicit false

namespace BlockConfig.Decimal

open Float.Model Float.Model.UnpackedFloat

/-! ## 1. Values -/

/-- A rational number, or one of the ends beyond all of them. -/
abbrev Extended : Type := WithBot (WithTop ℚ)

namespace Extended

/-- A rational number among the extended ones. -/
def of (q : ℚ) : Extended :=
  WithBot.some (WithTop.some q)

/-- The order of the rationals is that of their extension. -/
theorem of_strictMono : StrictMono of :=
  WithBot.coe_strictMono.comp WithTop.coe_strictMono

theorem of_inj {a b : ℚ} : of a = of b ↔ a = b :=
  of_strictMono.injective.eq_iff

theorem cmp_of (a b : ℚ) : cmp (of a) (of b) = cmp a b :=
  of_strictMono.cmp_map_eq a b

theorem bot_lt_of (a : ℚ) : ⊥ < of a :=
  WithBot.bot_lt_coe _

theorem of_lt_top (a : ℚ) : of a < ⊤ :=
  WithBot.coe_lt_coe.2 (WithTop.coe_lt_top a)

end Extended

/-- The exact value of a finite number. -/
def Binary.value (b : Binary) : ℚ :=
  if b.negative then -(b.significand * 2 ^ b.exponent) else b.significand * 2 ^ b.exponent

/-- The value of a double; what is not a number has none. -/
def value? (x : Float) : Option Extended :=
  match decode x with
  | some b => some (.of b.value)
  | none => if x.isNaN then none else if x < 0 then some ⊥ else some ⊤

/-! ## 2. What a double is unpacked to -/

/-- The sign of a finite number. -/
def Binary.sign (b : Binary) : Sign :=
  if b.negative then .negative else .positive

/-- The sign of a double is its highest bit. -/
theorem ofBitVec_unpackSign (b : BitVec 64) :
    Sign.ofBitVec (@unpackSign Format.binary64 b) =
      if b.toNat / 2 ^ 63 = 1 then .negative else .positive := by
  have hsign := unpackSign_toNat b
  have hlt := b.isLt
  unfold Sign.ofBitVec
  by_cases h : b.toNat / 2 ^ 63 = 1
  · rw [if_pos h, if_neg]
    intro hzero
    rw [hzero, h] at hsign
    exact absurd hsign (by decide)
  · rw [if_neg h, if_pos]
    apply BitVec.eq_of_toNat_eq
    rw [hsign]
    show b.toNat / 2 ^ 63 = 0
    omega

section Fields

variable {b : BitVec 64}

/-- An exponent of ones stands for the infinities and for what is no number. -/
theorem exponent_eq_ones_iff :
    @unpackExponent Format.binary64 b = -1#_ ↔ b.toNat / 2 ^ 52 % 2048 = 2047 := by
  rw [← unpackExponent_toNat]
  exact ⟨congrArg BitVec.toNat, fun h => BitVec.eq_of_toNat_eq h⟩

/-- An exponent of zeros stands for zeros and for the smallest numbers. -/
theorem exponent_eq_zero_iff :
    @unpackExponent Format.binary64 b = 0#_ ↔ b.toNat / 2 ^ 52 % 2048 = 0 := by
  rw [← unpackExponent_toNat]
  exact ⟨congrArg BitVec.toNat, fun h => BitVec.eq_of_toNat_eq h⟩

/-- The mantissa is in the lowest 52 bits. -/
theorem mantissa_eq_zero_iff : @unpackMantissa Format.binary64 b = 0#_ ↔ b.toNat % 2 ^ 52 = 0 := by
  rw [← unpackMantissa_toNat]
  exact ⟨congrArg BitVec.toNat, fun h => BitVec.eq_of_toNat_eq h⟩

end Fields

section Unpacked

variable {x : Float} {b : Binary}

/-- A finite double is unpacked to its parts. -/
theorem unpack_of_decode (h : decode x = some b) :
    (b.significand = 0 ∧ x.toModel.unpack = .zero b.sign) ∨
      ∃ hd : IsDouble b.significand b.exponent,
        x.toModel.unpack = .finite b.sign b.significand b.exponent hd.pos := by
  have hbias : ((Format.binary64.exponentBias : ℤ) +
      (Format.binary64.mantissaBitsWithoutImplicit : ℤ)) = 1075 := rfl
  unfold decode at h
  dsimp only [Nat.pow_eq] at h
  show (_ ∧ UnpackedFloat.unpack Format.binary64 x.toBits.toBitVec = _) ∨
    ∃ _, UnpackedFloat.unpack Format.binary64 x.toBits.toBitVec = _
  unfold UnpackedFloat.unpack
  dsimp only
  rw [hbias, ofBitVec_unpackSign]
  split at h
  · cases h
  next hfinite =>
  rw [if_neg (mt exponent_eq_ones_iff.1 hfinite)]
  split at h
  next hzero =>
    cases h
    rw [if_pos (exponent_eq_zero_iff.2 hzero)]
    -- With the smallest exponent there is no leading bit, so the mantissa may be zero.
    by_cases hmantissa : x.toBits.toNat % 2 ^ 52 = 0
    · left
      rw [dif_pos (mantissa_eq_zero_iff.2 hmantissa)]
      exact ⟨hmantissa, by simp [Binary.sign]⟩
    · right
      rw [dif_neg (mt mantissa_eq_zero_iff.1 hmantissa)]
      have hlt : x.toBits.toNat % 2 ^ 52 < 2 ^ 53 :=
        Nat.lt_trans (Nat.mod_lt _ (by decide)) (by decide)
      refine ⟨⟨Nat.pos_of_ne_zero hmantissa, hlt, le_rfl, .inl rfl⟩, ?_⟩
      congr 1
      · simp [Binary.sign]
      · rw [unpackExponent_toNat]
        show ((x.toBits.toNat / 2 ^ 52 % 2048 : ℕ) : ℤ) - 1075 + 1 = -1074
        rw [hzero]
        norm_num
  next hzero =>
    cases h
    right
    rw [if_neg (mt exponent_eq_zero_iff.1 hzero)]
    have hmod : x.toBits.toNat % 2 ^ 52 < 2 ^ 52 := Nat.mod_lt _ (by decide)
    have hbiased : 0 < x.toBits.toNat / 2 ^ 52 % 2048 := Nat.pos_of_ne_zero hzero
    refine ⟨⟨by positivity, by show _ + _ < _; omega, by show (_ : ℤ) ≤ _ - _; omega,
      .inr (Nat.le_add_left _ _)⟩, ?_⟩
    congr 1
    · simp [Binary.sign]
    · rw [one_append_toNat, unpackMantissa_toNat]
      exact Nat.add_comm _ _
    · rw [unpackExponent_toNat]
      rfl

/-- A double that is not finite is unpacked to what is not a number, or to an infinity. -/
theorem unpack_of_decode_none (h : decode x = none) :
    x.toModel.unpack = .notANumber ∨ ∃ s, x.toModel.unpack = .infinity s := by
  unfold decode at h
  dsimp only [Nat.pow_eq] at h
  split at h
  next hinfinite =>
    show UnpackedFloat.unpack Format.binary64 x.toBits.toBitVec = _ ∨
      ∃ s, UnpackedFloat.unpack Format.binary64 x.toBits.toBitVec = _
    unfold UnpackedFloat.unpack
    dsimp only
    rw [if_pos (exponent_eq_ones_iff.2 hinfinite)]
    split
    · exact .inr ⟨_, rfl⟩
    · exact .inl rfl
  · split at h <;> cases h

/-- What is unpacked stands for a value. -/
inductive StandsFor : UnpackedFloat → Option Extended → Prop
  | notANumber : StandsFor .notANumber none
  | low : StandsFor (.infinity .negative) (some ⊥)
  | high : StandsFor (.infinity .positive) (some ⊤)
  | zero (s : Sign) : StandsFor (.zero s) (some (.of 0))
  | negative {m : ℕ} {e : ℤ} (hd : IsDouble m e) :
      StandsFor (.finite .negative m e hd.pos) (some (.of (-(m * 2 ^ e))))
  | positive {m : ℕ} {e : ℤ} (hd : IsDouble m e) :
      StandsFor (.finite .positive m e hd.pos) (some (.of (m * 2 ^ e)))

theorem unpack_zero : (0 : Float).toModel.unpack = .zero .positive := by
  have hdecode : decode 0 = some ⟨false, 0, -1074, false⟩ := by decide +kernel
  rcases unpack_of_decode hdecode with ⟨-, h⟩ | ⟨hd, -⟩
  · exact h
  · exact absurd hd.pos (Nat.lt_irrefl 0)

/-- A double is unpacked to what stands for its value. -/
theorem standsFor_unpack (x : Float) : StandsFor x.toModel.unpack (value? x) := by
  unfold value?
  cases hx : decode x with
  | some b =>
    dsimp only
    rcases unpack_of_decode hx with ⟨hzero, hu⟩ | ⟨hd, hu⟩
    · have hvalue : b.value = 0 := by simp [Binary.value, hzero]
      rw [hu, hvalue]
      exact .zero _
    · rw [hu]
      obtain ⟨negative, m, e, narrow⟩ := b
      cases negative with
      | false => exact .positive hd
      | true => exact .negative hd
  | none =>
    have hnan : x.isNaN = x.toModel.unpack.isNaN := rfl
    have hless : x < 0 ↔ x.toModel.unpack.lt (.zero .positive) = true := by
      rw [← unpack_zero]
      exact decide_eq_true_iff
    rcases unpack_of_decode_none hx with hu | ⟨s, hu⟩
    · rw [hnan, hu]
      exact .notANumber
    · simp only [hnan, hless, hu]
      cases s with
      | negative => exact .low
      | positive => exact .high

end Unpacked

/-! ## 3. Comparing -/

/-- **The larger exponent belongs to the larger number.** Above the least exponent a mantissa has its
leading bit, so the smallest number with the larger exponent is still above all with the smaller one. -/
theorem IsDouble.value_lt {m₁ m₂ : ℕ} {e₁ e₂ : ℤ} (h₁ : IsDouble m₁ e₁) (h₂ : IsDouble m₂ e₂)
    (h : e₁ < e₂) : (m₁ * 2 ^ e₁ : ℚ) < m₂ * 2 ^ e₂ := by
  have hnormal : 2 ^ 52 ≤ m₂ := by
    have := h₁.least
    exact h₂.normal.resolve_left (by omega)
  have hlong : ((2 : ℚ) ^ 52) ≤ m₂ := by exact_mod_cast hnormal
  have hshort : (m₁ : ℚ) < 2 ^ 53 := by exact_mod_cast h₁.lt
  calc (m₁ * 2 ^ e₁ : ℚ) < 2 ^ 53 * 2 ^ e₁ := mul_lt_mul_of_pos_right hshort (two_zpow_pos e₁)
    _ = 2 ^ 52 * 2 ^ (e₁ + 1) := by
        rw [zpow_add₀ (by norm_num), zpow_one]
        ring
    _ ≤ 2 ^ 52 * 2 ^ e₂ := by
        apply mul_le_mul_of_nonneg_left _ (by norm_num)
        exact zpow_le_zpow_right₀ (by norm_num) h
    _ ≤ m₂ * 2 ^ e₂ := mul_le_mul_of_nonneg_right hlong (two_zpow_pos e₂).le

section Comparing

variable {m₁ m₂ : ℕ} {e₁ e₂ : ℤ} {u v : UnpackedFloat} {p q : Option Extended}

/-- Sizes of doubles compare by exponent first and by mantissa then. -/
theorem IsDouble.cmp_value (h₁ : IsDouble m₁ e₁) (h₂ : IsDouble m₂ e₂) :
    cmp (m₁ * 2 ^ e₁ : ℚ) (m₂ * 2 ^ e₂) = (compare e₁ e₂).then (compare m₁ m₂) := by
  rcases lt_trichotomy e₁ e₂ with h | rfl | h
  · rw [Int.compare_eq_lt.2 h]
    exact (cmp_eq_lt_iff _ _).2 (h₁.value_lt h₂ h)
  · rw [Int.compare_eq_eq.2 rfl, cmp_mul_pos_right (two_zpow_pos e₁),
      Nat.strictMono_cast.cmp_map_eq, cmp_eq_compare]
    rfl
  · rw [Int.compare_eq_gt.2 h]
    exact (cmp_eq_gt_iff _ _).2 (h₂.value_lt h₁ h)

theorem IsDouble.value_pos (h : IsDouble m₁ e₁) : (0 : ℚ) < m₁ * 2 ^ e₁ :=
  mul_pos (by exact_mod_cast h.pos) (two_zpow_pos e₁)

theorem cmp_of_lt {a b : Extended} (h : a < b) : cmp a b = .lt ∧ cmp b a = .gt :=
  ⟨(cmp_eq_lt_iff _ _).2 h, (cmp_eq_gt_iff _ _).2 h⟩

/-- **Unpacked doubles compare like the values that they stand for.** Signs and infinities settle most
pairs; two numbers of one sign are compared by exponent and mantissa, turned around if they are negative. -/
theorem StandsFor.compare_eq (hu : StandsFor u p) (hv : StandsFor v q) :
    u.compare v = Option.map₂ cmp p q := by
  have hlow := fun a => cmp_of_lt (Extended.bot_lt_of a)
  have hhigh := fun a => cmp_of_lt (Extended.of_lt_top a)
  have hless := fun (a b : ℚ) (h : a < b) => cmp_of_lt (Extended.of_strictMono h)
  cases hu with
  | notANumber => cases hv <;> rfl
  | low =>
    cases hv with
    | notANumber | low | high => rfl
    | zero | negative | positive => exact congrArg some (hlow _).1.symm
  | high =>
    cases hv with
    | notANumber | low | high => rfl
    | zero | negative | positive => exact congrArg some (hhigh _).2.symm
  | zero s =>
    cases hv with
    | notANumber => rfl
    | low => exact congrArg some (hlow _).2.symm
    | high => exact congrArg some (hhigh _).1.symm
    | zero s' => exact congrArg some (cmp_self_eq_eq _).symm
    | negative h => exact congrArg some (hless _ _ (neg_neg_of_pos h.value_pos)).2.symm
    | positive h => exact congrArg some (hless _ _ h.value_pos).1.symm
  | negative h₁ =>
    cases hv with
    | notANumber => rfl
    | low => exact congrArg some (hlow _).2.symm
    | high => exact congrArg some (hhigh _).1.symm
    | zero s => exact congrArg some (hless _ _ (neg_neg_of_pos h₁.value_pos)).1.symm
    | negative h₂ =>
      show some ((compare _ _).then (compare _ _)).swap = some (cmp _ _)
      -- Of negative numbers the larger mantissa is the lesser one.
      have hneg : StrictAnti (- · : ℚ → ℚ) := fun _ _ => neg_lt_neg
      rw [Extended.cmp_of, hneg.cmp_map_eq, ← h₁.cmp_value h₂, cmp_swap]
    | positive h₂ =>
      exact congrArg some (hless _ _ ((neg_neg_of_pos h₁.value_pos).trans h₂.value_pos)).1.symm
  | positive h₁ =>
    cases hv with
    | notANumber => rfl
    | low => exact congrArg some (hlow _).2.symm
    | high => exact congrArg some (hhigh _).1.symm
    | zero s => exact congrArg some (hless _ _ h₁.value_pos).2.symm
    | negative h₂ =>
      exact congrArg some (hless _ _ ((neg_neg_of_pos h₂.value_pos).trans h₁.value_pos)).2.symm
    | positive h₂ =>
      show some ((compare _ _).then (compare _ _)) = some (cmp _ _)
      rw [Extended.cmp_of, h₁.cmp_value h₂]

end Comparing

section Floats

variable {x y : Float}

/-- Doubles compare as what they count does, and not at all if one of them counts nothing. -/
theorem compare_unpack (x y : Float) :
    x.toModel.unpack.compare y.toModel.unpack = Option.map₂ cmp (value? x) (value? y) :=
  (standsFor_unpack x).compare_eq (standsFor_unpack y)

/-- One double is less than another if its value is. -/
theorem lt_iff_value : x < y ↔ ∃ p q, value? x = some p ∧ value? y = some q ∧ p < q := by
  have h : x < y ↔ x.toModel.unpack.compare y.toModel.unpack = some .lt := by
    show decide (x.toModel < y.toModel) = true ↔ _
    rw [decide_eq_true_iff]
    exact beq_iff_eq
  rw [h, compare_unpack, Option.map₂_eq_some_iff]
  refine exists₂_congr fun p q => and_congr_right fun _ => and_congr_right fun _ => ?_
  exact cmp_eq_lt_iff p q

/-- A double is not less than itself; this holds of those that are no numbers, too. -/
theorem not_lt_self (x : Float) : ¬ x < x := by
  rw [lt_iff_value]
  rintro ⟨p, q, hp, hq, h⟩
  rw [hp] at hq
  cases hq
  exact lt_irrefl p h

/-- The order of doubles is transitive, since it is that of what they count. -/
theorem lt_trans_float {z : Float} (hxy : x < y) (hyz : y < z) : x < z := by
  obtain ⟨p, q, hp, hq, hpq⟩ := lt_iff_value.1 hxy
  obtain ⟨q', r, hq', hr, hqr⟩ := lt_iff_value.1 hyz
  rw [hq] at hq'
  cases hq'
  exact lt_iff_value.2 ⟨p, r, hp, hr, hpq.trans hqr⟩

/-- Two doubles are equal if their values are. -/
theorem beq_iff_value : (x == y) = true ↔ ∃ p, value? x = some p ∧ value? y = some p := by
  have h : (x == y) = true ↔ x.toModel.unpack.compare y.toModel.unpack = some .eq := by
    show (x.toModel.unpack.compare y.toModel.unpack == some .eq) = true ↔ _
    exact beq_iff_eq
  rw [h, compare_unpack, Option.map₂_eq_some_iff]
  constructor
  · rintro ⟨p, q, hp, hq, heq⟩
    obtain rfl := (cmp_eq_eq_iff p q).1 heq
    exact ⟨p, hp, hq⟩
  · rintro ⟨p, hp, hq⟩
    exact ⟨p, p, hp, hq, cmp_self_eq_eq p⟩

end Floats

end BlockConfig.Decimal
