import BlockConfig.Proofs.Decimal.Comparing
import BlockConfig.Proofs.Decimal.Scaling
import Mathlib.Algebra.Order.Field.Basic
import Mathlib.Tactic.Positivity

/-!
Integers as doubles.

A double has room for 53 bits, so a larger integer is rounded when it becomes one: to the nearest
multiple of a power of two, and to the even one of two that are equally near. This file describes that
in whole numbers (`rounded`) and shows that it is what the conversion does (`value?_ofInt64`). Rounding
keeps the order of integers, but not strictly: from `2 ^ 53` on, neighbours may fall together.
-/

set_option autoImplicit false

namespace BlockConfig.Decimal

open Float.Model Float.Model.UnpackedFloat

/-! ## 1. Rounding in whole numbers -/

/-- The whole number nearest to `n / unit`, of two equally near ones the even one. -/
def roundedQuotient (n unit : ℕ) : ℕ :=
  if 2 * (n % unit) < unit ∨ 2 * (n % unit) = unit ∧ n / unit % 2 = 0 then n / unit
  else n / unit + 1

/-- The place value of the last of the 53 bits that a double keeps of a whole number. -/
def unitOf (n : ℕ) : ℕ :=
  2 ^ (n.log2 - 52)

/-- A whole number rounded to 53 bits. -/
def roundedSize (n : ℕ) : ℕ :=
  roundedQuotient n (unitOf n) * unitOf n

/-- An integer rounded to 53 bits. -/
def rounded (i : ℤ) : ℤ :=
  if i < 0 then -(roundedSize i.natAbs) else roundedSize i.natAbs

/-! ## 2. Bounds of the rounded number -/

section Nearest

variable {y y' : ℚ} {m m' n n' unit : ℕ}

/-- The nearest whole number of a larger number is not smaller. -/
theorem Nearest.mono (hm : Nearest y m) (hm' : Nearest y' m') (h : y ≤ y') : m ≤ m' := by
  by_contra hlt
  -- Only half way between two neighbours would do, and one of these is odd.
  have hge : m' + 1 ≤ m := by omega
  have hcast : (m' : ℚ) + 1 ≤ m := by exact_mod_cast hge
  have hlow := hm.low
  have hhigh := hm'.high
  have hnext : (m : ℚ) = m' + 1 := by linarith
  have hnext : m = m' + 1 := by exact_mod_cast hnext
  rcases Nat.mod_two_eq_zero_or_one m with heven | hodd
  · have := (hm'.odd (by omega)).2
    linarith
  · have := (hm.odd hodd).1
    linarith

/-- Rounding a quotient to whole numbers gives the nearest one: the remainder is compared with half of the
unit, and in the middle the even quotient is taken. The two cases of the definition give the two bounds. -/
theorem nearest_roundedQuotient (hunit : 0 < unit) :
    Nearest ((n : ℚ) / unit) (roundedQuotient n unit) := by
  have hpos : (0 : ℚ) < unit := by exact_mod_cast hunit
  have hdivision : (n : ℚ) / unit = (n / unit : ℕ) + (n % unit : ℕ) / (unit : ℚ) := by
    have h : unit * (n / unit) + n % unit = n := Nat.div_add_mod n unit
    have h : (unit : ℚ) * (n / unit : ℕ) + (n % unit : ℕ) = n := by exact_mod_cast h
    field_simp
    linarith
  have hfraction : (0 : ℚ) ≤ (n % unit : ℕ) / (unit : ℚ) := by positivity
  have hbelow : ((n % unit : ℕ) : ℚ) / unit < 1 := by
    rw [div_lt_one hpos]
    exact_mod_cast Nat.mod_lt n hunit
  have hless : 2 * (n % unit) < unit ↔ ((n % unit : ℕ) : ℚ) / unit < 1 / 2 := by
    rw [div_lt_div_iff₀ hpos two_pos, one_mul, mul_comm]
    exact_mod_cast Iff.rfl
  have hhalf : 2 * (n % unit) = unit ↔ ((n % unit : ℕ) : ℚ) / unit = 1 / 2 := by
    rw [div_eq_div_iff hpos.ne' two_ne_zero, one_mul, mul_comm]
    exact_mod_cast Iff.rfl
  rw [hdivision, roundedQuotient]
  split
  next hdown =>
    rw [hless, hhalf] at hdown
    rcases hdown with hdown | ⟨hhalf, heven⟩
    · exact ⟨by linarith, by linarith, fun _ => ⟨by linarith, by linarith⟩⟩
    · exact ⟨by linarith, by linarith, fun hodd => by omega⟩
  next hup =>
    rw [hless, hhalf, not_or, not_and, not_lt] at hup
    obtain ⟨hup, hodd⟩ := hup
    have hcast : ((n / unit + 1 : ℕ) : ℚ) = (n / unit : ℕ) + 1 := Nat.cast_succ _
    refine ⟨by linarith, by linarith, fun hnext => ⟨?_, by linarith⟩⟩
    have hne : ((n % unit : ℕ) : ℚ) / unit ≠ 1 / 2 := fun h => hodd h (by omega)
    have := lt_of_le_of_ne hup (Ne.symm hne)
    linarith

theorem unitOf_pos (n : ℕ) : 0 < unitOf n :=
  Nat.two_pow_pos _

/-- Rounding a whole number to the places of a double is such a rounding. -/
theorem nearest_roundedSize (n : ℕ) : Nearest ((n : ℚ) / unitOf n) (roundedQuotient n (unitOf n)) :=
  nearest_roundedQuotient (unitOf_pos n)

/-- A whole number that needs no more than 53 bits is not rounded. -/
theorem roundedSize_of_lt (h : n < 2 ^ 53) : roundedSize n = n := by
  have hunit : unitOf n = 1 := by
    rcases Nat.eq_zero_or_pos n with rfl | hpos
    · rfl
    · have := log2_lt_of_lt hpos.ne' h
      rw [unitOf, show n.log2 - 52 = 0 by omega, pow_zero]
  rw [roundedSize, hunit, roundedQuotient, Nat.mod_one, if_pos (.inl Nat.one_pos), Nat.div_one, mul_one]

/-- With more than 53 bits, the unit cuts off those behind the first 53. -/
theorem unitOf_eq (h : 2 ^ 53 ≤ n) : 2 ^ n.log2 = 2 ^ 52 * unitOf n := by
  have hlog : 53 ≤ n.log2 := (Nat.le_log2 (by omega)).2 h
  rw [unitOf, ← pow_add]
  congr 1
  omega

/-- The first 53 bits are a number of 53 bits. -/
theorem quotient_bounds (h : 2 ^ 53 ≤ n) :
    (2 ^ 52 : ℕ) ≤ (n : ℚ) / unitOf n ∧ (n : ℚ) / unitOf n < (2 ^ 53 : ℕ) := by
  have hunit : (0 : ℚ) < unitOf n := by exact_mod_cast unitOf_pos n
  have heq := unitOf_eq h
  have hlow : 2 ^ n.log2 ≤ n := Nat.log2_self_le (by omega)
  have hhigh : n < 2 ^ (n.log2 + 1) := Nat.lt_log2_self
  rw [le_div_iff₀ hunit, div_lt_iff₀ hunit]
  constructor
  · exact_mod_cast heq ▸ hlow
  · have : n < 2 ^ 53 * unitOf n := by
      rw [pow_succ, heq] at hhigh
      omega
    exact_mod_cast this

/-- A whole number is rounded to one of the same length, or to the next power of two. -/
theorem roundedSize_bounds (hpos : 0 < n) :
    2 ^ n.log2 ≤ roundedSize n ∧ roundedSize n ≤ 2 ^ (n.log2 + 1) := by
  by_cases h : n < 2 ^ 53
  · rw [roundedSize_of_lt h]
    exact ⟨Nat.log2_self_le hpos.ne', Nat.lt_log2_self.le⟩
  · have h := not_lt.1 h
    obtain ⟨hlow, hhigh⟩ := quotient_bounds h
    have hlow := (Nearest.self _).mono (nearest_roundedSize n) hlow
    have hhigh := (nearest_roundedSize n).mono (Nearest.self _) hhigh.le
    rw [pow_succ, unitOf_eq h, roundedSize]
    constructor
    · exact Nat.mul_le_mul_right _ hlow
    · calc roundedQuotient n (unitOf n) * unitOf n ≤ 2 ^ 53 * unitOf n :=
            Nat.mul_le_mul_right _ hhigh
        _ = 2 ^ 52 * unitOf n * 2 := by ring

/-- Rounding keeps the order. Within one binade the unit is the same; from one to the next the rounded
numbers stay on their sides of the power of two. -/
theorem roundedSize_mono (h : n ≤ n') : roundedSize n ≤ roundedSize n' := by
  rcases Nat.eq_zero_or_pos n with rfl | hpos
  · exact Nat.zero_le _
  have hpos' : 0 < n' := by omega
  by_cases hlog : n.log2 = n'.log2
  · -- The same unit.
    have hunit : unitOf n = unitOf n' := by rw [unitOf, unitOf, hlog]
    have hle : (n : ℚ) / unitOf n ≤ n' / unitOf n' := by
      rw [hunit]
      have : (n : ℚ) ≤ n' := by exact_mod_cast h
      exact div_le_div_of_nonneg_right this (Nat.cast_nonneg _)
    have hle := (nearest_roundedSize n).mono (nearest_roundedSize n') hle
    exact Nat.mul_le_mul hle hunit.le
  · -- A power of two lies between the two.
    have hlt : n.log2 + 1 ≤ n'.log2 := by
      have : n.log2 ≤ n'.log2 := (Nat.le_log2 hpos'.ne').2 ((Nat.log2_self_le hpos.ne').trans h)
      omega
    calc roundedSize n ≤ 2 ^ (n.log2 + 1) := (roundedSize_bounds hpos).2
      _ ≤ 2 ^ n'.log2 := Nat.pow_le_pow_right two_pos hlt
      _ ≤ roundedSize n' := (roundedSize_bounds hpos').1

end Nearest

/-! ## 3. The double of an integer -/

section Conversion

variable {m n : ℕ} {e : ℤ}

/-- Rounding up to a power of two gives the double with one bit more. -/
theorem inReach_of_carry (hnearest : Nearest ((n : ℚ) / 2 ^ e) (2 ^ 53))
    (hhigh : (n : ℚ) / 2 ^ e < (2 ^ 53 : ℕ)) : InReach n (2 ^ 52) (e + 1) := by
  have hlow := hnearest.low
  have hhalf : (n : ℚ) / 2 ^ (e + 1) = n / 2 ^ e / 2 := by
    rw [zpow_add₀ (by norm_num), zpow_one, div_div]
  push_cast at hlow hhigh
  refine ⟨⟨?_, ?_, fun hodd => absurd hodd (by decide)⟩, fun _ _ => ?_⟩
  all_goals
    rw [hhalf]
    push_cast
    linarith

/-- A whole number is within reach of the double of the rounded one. -/
theorem exists_inReach (hpos : 0 < n) (hlt : n < 2 ^ 64) :
    ∃ m e, IsDouble m e ∧ e ≤ 971 ∧ InReach n m e ∧ (m : ℚ) * 2 ^ e = roundedSize n := by
  by_cases h : n < 2 ^ 53
  · -- The number itself, moved to the left end of the 53 places.
    have hvalue := shifted_value n (52 - n.log2) 0
    rw [pow_zero, mul_one] at hvalue
    refine ⟨_, _, isDouble_shifted hpos h 0, by omega, ?_, ?_⟩
    · nth_rewrite 1 [← hvalue]
      exact InReach.self _ _
    · rw [roundedSize_of_lt h]
      exact hvalue
  -- A larger number is rounded to 53 places, and this may carry into one more.
  · have h := not_lt.1 h
    obtain ⟨hlow, hhigh⟩ := quotient_bounds h
    have hnearest := nearest_roundedSize n
    have hlong := (Nearest.self _).mono hnearest hlow
    have hshort := hnearest.mono (Nearest.self _) hhigh.le
    have hlog : n.log2 < 64 := log2_lt_of_lt hpos.ne' hlt
    have hunit : (unitOf n : ℚ) = 2 ^ ((n.log2 - 52 : ℕ) : ℤ) := by
      rw [unitOf, zpow_natCast]
      push_cast
      rfl
    have hrounded : (roundedSize n : ℚ) = roundedQuotient n (unitOf n) * unitOf n := by
      rw [roundedSize]
      push_cast
      rfl
    rw [hunit] at hnearest hhigh hlow hrounded
    rcases hshort.lt_or_eq with hshort | hcarry
    · refine ⟨_, _, ⟨by omega, hshort, by omega, .inr hlong⟩, by omega, ⟨hnearest, ?_⟩, hrounded.symm⟩
      intro heq _
      rw [heq]
      push_cast at hlow ⊢
      linarith
    · rw [hcarry] at hnearest hrounded
      refine ⟨_, _, ⟨by norm_num, by norm_num, by omega, .inr le_rfl⟩, by omega,
        inReach_of_carry hnearest hhigh, ?_⟩
      rw [hrounded, zpow_add₀ (by norm_num), zpow_one]
      push_cast
      ring

/-- A negative sign is the highest bit. -/
theorem packComponents_negative (e : BitVec 11) (m : BitVec 52) :
    (packComponents Format.binary64 .negative e m).toNat =
      2 ^ 63 + (packComponents Format.binary64 .positive e m).toNat := by
  rw [packComponents_toNat]
  unfold packComponents Sign.toBitVec
  rw [BitVec.toNat_append, BitVec.toNat_append, ← Nat.shiftLeft_add_eq_or_of_lt m.isLt,
    ← Nat.shiftLeft_add_eq_or_of_lt e.isLt, Nat.shiftLeft_eq, Nat.shiftLeft_eq]
  show (1 * 2 ^ 11 + e.toNat) * 2 ^ 52 + m.toNat = _
  omega

/-- The bits of a negative number are those of its size with the highest one set. -/
theorem pack_negative (h : 0 < m) :
    (UnpackedFloat.pack Format.binary64 (.finite .negative m e h)).toNat =
      2 ^ 63 + (UnpackedFloat.pack Format.binary64 (.finite .positive m e h)).toNat := by
  unfold UnpackedFloat.pack
  dsimp only
  split
  · exact packComponents_negative _ _
  · split
    · exact packComponents_negative _ _
    · exact packComponents_negative _ _

/-- Negating a double sets this bit. -/
theorem toNat_toBits_neg (hd : IsDouble m e) (he : e ≤ 971) :
    (-ofDouble hd).toBits.toNat = 2 ^ 63 + (ofDouble hd).toBits.toNat := by
  show (UnpackedFloat.pack Format.binary64 (ofDouble hd).toModel.unpack.neg).toNat = _
  rw [unpack_ofDouble hd he]
  exact pack_negative hd.pos

/-- Two doubles whose bits differ in the highest one stand for numbers that differ in their sign. -/
theorem decode_of_toBits {x y : Float} {b : Binary} (hx : x.toBits.toNat < 2 ^ 63)
    (hy : y.toBits.toNat = 2 ^ 63 + x.toBits.toNat) (h : decode x = some b) :
    decode y = some { b with negative := true } := by
  unfold decode at h ⊢
  rw [hy]
  dsimp only [Nat.pow_eq] at h ⊢
  have hsign : (2 ^ 63 + x.toBits.toNat) / 2 ^ 63 = 1 := by omega
  have hbiased : (2 ^ 63 + x.toBits.toNat) / 2 ^ 52 % 2048 = x.toBits.toNat / 2 ^ 52 % 2048 := by omega
  have hfraction : (2 ^ 63 + x.toBits.toNat) % 2 ^ 52 = x.toBits.toNat % 2 ^ 52 := by omega
  simp only [hsign, hbiased, hfraction, decide_true]
  split at h
  · cases h
  next hfinite =>
    rw [if_neg hfinite]
    split at h
    next hzero =>
      cases h
      rw [if_pos hzero]
    next hzero =>
      cases h
      rw [if_neg hzero]

/-- A double counts its mantissa times its power of two. -/
theorem value?_ofDouble (hd : IsDouble m e) (he : e ≤ 971) :
    value? (ofDouble hd) = some (.of (m * 2 ^ e)) := by
  unfold value?
  rw [decode_ofDouble hd he]
  rfl

/-- Its negative counts the negative. -/
theorem value?_neg_ofDouble (hd : IsDouble m e) (he : e ≤ 971) :
    value? (-ofDouble hd) = some (.of (-(m * 2 ^ e))) := by
  unfold value?
  rw [decode_of_toBits (unsigned_ofDouble hd) (toNat_toBits_neg hd he) (decode_ofDouble hd he)]
  rfl

/-- A whole number becomes a double, which counts what the number is rounded to. -/
theorem ofNat_eq (hpos : 0 < n) (hlt : n < 2 ^ 64) :
    ∃ m e, ∃ hd : IsDouble m e, e ≤ 971 ∧ Float.ofNat n = ofDouble hd ∧
      (m : ℚ) * 2 ^ e = roundedSize n := by
  obtain ⟨m, e, hd, he, hreach, hvalue⟩ := exists_inReach hpos hlt
  refine ⟨m, e, hd, he, ?_, hvalue⟩
  apply ofScientific_mul hpos (Nat.zero_le _) hd
  rw [pow_zero, mul_one]
  exact hreach

/-- **An integer becomes the double of the rounded one.** A negative one becomes the opposite of the double
of its size, since rounding does not look at the sign. -/
theorem value?_ofInt64 (i : Int64) : value? (ofInt64 i) = some (.of (rounded i.toInt)) := by
  have hlow := i.le_toInt
  have hhigh := i.toInt_lt
  unfold ofInt64
  cases h : i.toInt with
  | ofNat n =>
    rw [h, Int.ofNat_eq_natCast] at hhigh
    show value? (Float.ofNat n) = some (.of ((roundedSize n : ℕ) : ℤ))
    rcases Nat.eq_zero_or_pos n with rfl | hpos
    · have hdecode : decode (Float.ofNat 0) = some ⟨false, 0, -1074, false⟩ := by decide +kernel
      rw [value?, hdecode]
      show some (Extended.of ((0 : ℕ) * 2 ^ (-1074 : ℤ))) = some (Extended.of (0 : ℕ))
      rw [Nat.cast_zero, zero_mul]
    · obtain ⟨m, e, hd, he, heq, hvalue⟩ := ofNat_eq hpos (by omega)
      rw [heq, value?_ofDouble hd he, hvalue, Int.cast_natCast]
  | negSucc n =>
    rw [h] at hlow
    have hrounded : rounded (Int.negSucc n) = -(roundedSize (n + 1) : ℕ) :=
      if_pos (Int.negSucc_lt_zero n)
    rw [hrounded]
    show value? (-Float.ofNat (n + 1)) = some (.of (-((roundedSize (n + 1) : ℕ) : ℤ) : ℤ))
    obtain ⟨m, e, hd, he, heq, hvalue⟩ := ofNat_eq n.succ_pos (by omega)
    rw [heq, value?_neg_ofDouble hd he, hvalue, Int.cast_neg, Int.cast_natCast]

/-- A whole number that is the size of a double is not rounded. -/
theorem roundedSize_of_double (hd : IsDouble m e) (hlt : n < 2 ^ 64)
    (h : (m : ℚ) * 2 ^ e = n) : roundedSize n = n := by
  have hpos : 0 < n := by
    have := hd.value_pos
    rw [h] at this
    exact_mod_cast this
  have he : e ≤ 971 := by
    have hm : (1 : ℚ) ≤ m := by exact_mod_cast hd.pos
    have hpower : (2 : ℚ) ^ e < 2 ^ (64 : ℤ) := by
      calc (2 : ℚ) ^ e ≤ m * 2 ^ e := le_mul_of_one_le_left (two_zpow_pos e).le hm
        _ = n := h
        _ < 2 ^ (64 : ℤ) := by exact_mod_cast hlt
    have := lt_of_zpow_lt hpower
    omega
  obtain ⟨m', e', hd', he', heq, hvalue⟩ := ofNat_eq hpos hlt
  have hself : Float.ofNat n = ofDouble hd := by
    apply ofScientific_mul hpos (Nat.zero_le _) hd
    rw [pow_zero, mul_one, ← h]
    exact InReach.self m e
  have hvalues : value? (ofDouble hd') = value? (ofDouble hd) := by rw [← heq, hself]
  rw [value?_ofDouble hd' he', value?_ofDouble hd he, hvalue, h, Option.some.injEq, Extended.of_inj,
    Nat.cast_inj] at hvalues
  exact hvalues

/-- The size of what a double counts does not depend on its sign. -/
theorem Binary.abs_value (b : Binary) : |b.value| = b.significand * 2 ^ b.exponent := by
  have hpower := two_zpow_pos b.exponent
  unfold Binary.value
  split
  · rw [abs_neg, abs_of_nonneg (by positivity)]
  · rw [abs_of_nonneg (by positivity)]

/-- A double that counts a rational number is finite. -/
theorem decode_of_value? {x : Float} {q : ℚ} (h : value? x = some (.of q)) :
    ∃ b, decode x = some b ∧ b.value = q := by
  unfold value? at h
  split at h
  next b hdecode =>
    rw [Option.some.injEq, Extended.of_inj] at h
    exact ⟨b, hdecode, h⟩
  next =>
    -- The two ends are no rational numbers.
    split at h
    · cases h
    · split at h
      · exact absurd (Option.some.inj h) (Extended.bot_lt_of q).ne
      · exact absurd (Option.some.inj h).symm (Extended.of_lt_top q).ne

/-- **A double that counts an integer is the double of it.** The size of the integer has few enough bits for
a mantissa, and a number that is a double is not changed by rounding. -/
theorem rounded_of_value? {x : Float} {i : Int64} (h : value? x = some (.of i.toInt)) :
    rounded i.toInt = i.toInt := by
  have hlow := i.le_toInt
  have hhigh := i.toInt_lt
  generalize i.toInt = i at *
  obtain ⟨b, hdecode, hvalue⟩ := decode_of_value? h
  have habs : (b.significand : ℚ) * 2 ^ b.exponent = i.natAbs := by
    rw [← b.abs_value, hvalue, Nat.cast_natAbs, Int.cast_abs]
  have hsize : roundedSize i.natAbs = i.natAbs := by
    rcases unpack_of_decode hdecode with ⟨hzero, -⟩ | ⟨hd, -⟩
    · rw [hzero, Nat.cast_zero, zero_mul] at habs
      have hnone : i.natAbs = 0 := by exact_mod_cast habs.symm
      rw [hnone]
      rfl
    · exact roundedSize_of_double hd (by omega) habs
  unfold rounded
  rw [hsize]
  split <;> omega

end Conversion

/-! ## 4. The order of rounded integers -/

/-- Two different integers become one double. -/
def Merged (i j : ℤ) : Prop :=
  i ≠ j ∧ rounded i = rounded j

instance (i j : ℤ) : Decidable (Merged i j) :=
  inferInstanceAs (Decidable (_ ∧ _))

section Order

variable {i j : ℤ}

/-- Rounding integers keeps their order, across zero as well. -/
theorem rounded_mono (h : i ≤ j) : rounded i ≤ rounded j := by
  unfold rounded
  by_cases hi : i < 0
  · by_cases hj : j < 0
    · rw [if_pos hi, if_pos hj]
      have := roundedSize_mono (show j.natAbs ≤ i.natAbs by omega)
      omega
    · rw [if_pos hi, if_neg hj]
      omega
  · rw [if_neg hi, if_neg (by omega)]
    have := roundedSize_mono (show i.natAbs ≤ j.natAbs by omega)
    omega

/-- Rounding keeps the order of integers that do not merge. -/
theorem cmp_rounded (h : ¬ Merged i j) : cmp (rounded i) (rounded j) = cmp i j := by
  rcases lt_trichotomy i j with hlt | rfl | hlt
  · have hne : rounded i ≠ rounded j := fun heq => h ⟨hlt.ne, heq⟩
    rw [(cmp_eq_lt_iff _ _).2 hlt, cmp_eq_lt_iff]
    exact lt_of_le_of_ne (rounded_mono hlt.le) hne
  · rw [cmp_self_eq_eq, cmp_self_eq_eq]
  · have hne : rounded j ≠ rounded i := fun heq => h ⟨hlt.ne', heq.symm⟩
    rw [(cmp_eq_gt_iff _ _).2 hlt, cmp_eq_gt_iff]
    exact lt_of_le_of_ne (rounded_mono hlt.le) hne

/-- An integer is rounded by its size. -/
theorem natAbs_rounded (i : ℤ) : (rounded i).natAbs = roundedSize i.natAbs := by
  unfold rounded
  split <;> omega

/-- An integer of up to 53 bits is not changed by rounding. -/
theorem rounded_of_lt (h : i.natAbs < 2 ^ 53) : rounded i = i := by
  unfold rounded
  rw [roundedSize_of_lt h]
  split <;> omega

/-- Merging is symmetric. -/
theorem Merged.symm (h : Merged i j) : Merged j i :=
  ⟨h.1.symm, h.2.symm⟩

/-- **Integers below `2 ^ 53` in size do not merge** with any other. They are rounded to themselves, and
larger ones are rounded to sizes that are at least that large. -/
theorem Merged.le_natAbs (h : Merged i j) : 2 ^ 53 ≤ i.natAbs := by
  obtain ⟨hne, heq⟩ := h
  by_contra hlt
  have hlt := not_le.1 hlt
  have hsize : roundedSize j.natAbs = i.natAbs := by
    rw [← natAbs_rounded, ← heq, rounded_of_lt hlt]
  have hj : j.natAbs < 2 ^ 53 := by
    by_contra hj
    have hmono := roundedSize_mono (not_lt.1 hj)
    have hpower : roundedSize (2 ^ 53) = 2 ^ 53 := by decide +kernel
    omega
  rw [rounded_of_lt hlt, rounded_of_lt hj] at heq
  exact hne heq

end Order

end BlockConfig.Decimal
