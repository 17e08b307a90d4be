import BlockConfig.Decimal.Reader
import BlockConfig.Proofs.Decimal.Packing

/-!
Decimals read as doubles.

A decimal is read as the double nearest to it. This file proves the part of that which a text needs to
be read back: a decimal within reach of a double is read as this double (`scale_eq`).

There are two ways a decimal is computed. A short one is the product or the quotient of two doubles that
are exact, the digits and the power of ten, and only that one operation rounds. Any other one is
computed from whole numbers of any size. Either way one rounding takes place, that of `mul_eq` or
`div_eq`.
-/

set_option autoImplicit false

namespace BlockConfig.Decimal

open Float.Model Float.Model.UnpackedFloat

/-! ## 1. Exact doubles -/

section Exact

variable {m : ℕ} {e : ℤ}

/-- A whole number is the one nearest to itself. -/
theorem Nearest.self (m : ℕ) : Nearest m m :=
  ⟨by linarith, by linarith, fun _ => ⟨by linarith, by linarith⟩⟩

/-- A double is within its own reach. -/
theorem InReach.self (m : ℕ) (e : ℤ) : InReach (m * 2 ^ e) m e := by
  have he := two_zpow_pos e
  have hvalue : (m : ℚ) * 2 ^ e / 2 ^ e = m := mul_div_cancel_right₀ _ he.ne'
  constructor
  · rw [hvalue]
    exact Nearest.self m
  · rw [hvalue]
    intro _ _
    linarith

/-- A double is never finer than the format allows for its size, so rounding it moves no digit out. -/
theorem IsDouble.le_targetExponent (hd : IsDouble m e) :
    e ≤ Format.binary64.targetExponent (totalExponent m e) := by
  have hleast := hd.least
  rw [targetExponent_eq, totalExponent]
  rcases hd.normal with rfl | hnormal
  · omega
  · have := hd.log2.2 hnormal
    omega

/-- Shifted to the left end, a number fills the highest of its places. -/
theorem le_shifted {n : ℕ} (hpos : 0 < n) (hlt : n < 2 ^ 53) : 2 ^ 52 ≤ n * 2 ^ (52 - n.log2) := by
  have hlog : n.log2 < 53 := log2_lt_of_lt hpos.ne' hlt
  calc 2 ^ 52 = 2 ^ n.log2 * 2 ^ (52 - n.log2) := by rw [← Nat.pow_add]; congr 1; omega
    _ ≤ n * 2 ^ (52 - n.log2) := Nat.mul_le_mul_right _ (Nat.log2_self_le hpos.ne')

/-- Any mantissa of up to 53 bits can be moved to the left end of the 53 places. -/
theorem isDouble_shifted {n : ℕ} (hpos : 0 < n) (hlt : n < 2 ^ 53) (k : ℕ) :
    IsDouble (n * 2 ^ (52 - n.log2)) (k - (52 - n.log2 : ℕ)) := by
  have hlog : n.log2 < 53 := log2_lt_of_lt hpos.ne' hlt
  refine ⟨Nat.mul_pos hpos (Nat.two_pow_pos _), ?_, by omega, .inr (le_shifted hpos hlt)⟩
  calc n * 2 ^ (52 - n.log2) < 2 ^ (n.log2 + 1) * 2 ^ (52 - n.log2) :=
        Nat.mul_lt_mul_of_pos_right Nat.lt_log2_self (Nat.two_pow_pos _)
    _ = 2 ^ 53 := by rw [← Nat.pow_add]; congr 1; omega

/-- Shifting the mantissa and lowering the exponent leaves the value as it was. -/
theorem shifted_value (n s k : ℕ) :
    ((n * 2 ^ s : ℕ) : ℚ) * 2 ^ ((k : ℤ) - s) = n * 2 ^ k := by
  rw [zpow_sub₀ (by norm_num), zpow_natCast, zpow_natCast]
  push_cast
  field_simp

/-- The double of a whole number of up to 53 bits is exact. -/
theorem toFloat_toUInt64 {n : ℕ} (hpos : 0 < n) (hlt : n < 2 ^ 53) :
    n.toUInt64.toFloat = ofDouble (isDouble_shifted hpos hlt 0) := by
  have hd := isDouble_shifted hpos hlt 0
  have hlog : n.log2 < 53 := log2_lt_of_lt hpos.ne' hlt
  have hvalue := shifted_value n (52 - n.log2) 0
  have htarget : Format.binary64.targetExponent (totalExponent n 0) = 0 - (52 - n.log2 : ℕ) := by
    rw [targetExponent_eq, totalExponent]
    omega
  have hround : round Format.binary64 .positive n 0 =
      .finite .positive (n * 2 ^ (52 - n.log2)) (0 - (52 - n.log2 : ℕ)) hd.pos := by
    have hshift : (0 - (0 - ((52 - n.log2 : ℕ) : ℤ))).toNat = 52 - n.log2 := by omega
    unfold UnpackedFloat.round decreaseExponent
    dsimp only
    rw [htarget, hshift, Nat.shiftLeft_eq]
    apply roundWithAccuracy_eq _ hd.le_targetExponent hd (InReach.self _ _)
    exact mul_div_cancel_right₀ _ (two_zpow_pos _).ne'
  have hcompare : compare (n : ℤ) 0 = .gt := Int.compare_eq_gt.2 (by omega)
  have hnormalize : normalize Format.binary64 n 0 .positive =
      .finite .positive (n * 2 ^ (52 - n.log2)) (0 - (52 - n.log2 : ℕ)) hd.pos := by
    unfold UnpackedFloat.normalize
    rw [hcompare]
    exact hround
  have hword : n.toUInt64.toNat = n := by
    apply UInt64.toNat_ofNat_of_lt'
    show n < 2 ^ 64
    omega
  show Float.ofModel (.pack (normalize Format.binary64 n.toUInt64.toNat 0 .positive)) = _
  rw [hword, hnormalize]
  rfl

theorem five_pow_lt {k : ℕ} (hk : k ≤ 22) : 5 ^ k < 2 ^ 53 :=
  lt_of_le_of_lt (Nat.pow_le_pow_right (by norm_num) hk) (by norm_num)

/-- The tabulated powers of ten are exact: the fives in them fit into a mantissa. -/
theorem exactlyRepresentablePowersOfTen_eq {k : ℕ} (hk : k ≤ 22)
    (h : k < Float.exactlyRepresentablePowersOfTen.size) :
    Float.exactlyRepresentablePowersOfTen[k] =
      ofDouble (isDouble_shifted (Nat.pow_pos (Nat.succ_pos 4)) (five_pow_lt hk) k) := by
  have hlog : (5 ^ k).log2 < 53 := log2_lt_of_lt (by positivity) (five_pow_lt hk)
  have hbits : ∀ j : Fin 23, (Float.exactlyRepresentablePowersOfTen[j]).toBits.toNat =
      bitsOf (5 ^ j.val * 2 ^ (52 - (5 ^ j.val).log2))
        ((j.val : ℤ) - (52 - (5 ^ j.val).log2 : ℕ)) := by
    decide +kernel
  apply eq_of_toBits
  rw [toNat_toBits_ofDouble _ (by omega)]
  exact hbits ⟨k, Nat.lt_succ_of_le hk⟩

end Exact

/-! ## 2. Products and quotients of doubles -/

section Operations

variable {m m₁ m₂ : ℕ} {e e₁ e₂ : ℤ}

/-- The product of two doubles is the double in whose reach the exact product lies. This is where the
rounding of a short decimal with a positive exponent takes place. -/
theorem ofDouble_mul (h₁ : IsDouble m₁ e₁) (he₁ : e₁ ≤ 971) (h₂ : IsDouble m₂ e₂) (he₂ : e₂ ≤ 971)
    (hbits : 2 ^ 52 ≤ m₁) (hd : IsDouble m e)
    (hq : InReach (m₁ * 2 ^ e₁ * (m₂ * 2 ^ e₂)) m e) :
    ofDouble h₁ * ofDouble h₂ = ofDouble hd := by
  show Float.ofModel (.pack (UnpackedFloat.mul Format.binary64 (ofDouble h₁).toModel.unpack
    (ofDouble h₂).toModel.unpack)) = _
  rw [unpack_ofDouble h₁ he₁, unpack_ofDouble h₂ he₂, mul_eq h₁.pos h₂.pos _ hd hq]
  · rfl
  · exact le_trans hbits (Nat.le_mul_of_pos_right _ h₂.pos)

/-- The quotient of two doubles, in the same way, for short decimals with a fraction. -/
theorem ofDouble_div (h₁ : IsDouble m₁ e₁) (he₁ : e₁ ≤ 971) (h₂ : IsDouble m₂ e₂) (he₂ : e₂ ≤ 971)
    (hd : IsDouble m e) (hq : InReach (m₁ * 2 ^ e₁ / (m₂ * 2 ^ e₂)) m e) :
    ofDouble h₁ / ofDouble h₂ = ofDouble hd := by
  show Float.ofModel (.pack (UnpackedFloat.div Format.binary64 (ofDouble h₁).toModel.unpack
    (ofDouble h₂).toModel.unpack)) = _
  rw [unpack_ofDouble h₁ he₁, unpack_ofDouble h₂ he₂, div_eq h₁.pos h₂.pos hd hq]
  rfl

end Operations

/-! ## 3. Decimals -/

section Decimals

variable {m n k : ℕ} {e : ℤ} {q : ℚ}

/-- What is within reach of a double is not much smaller than the least double … -/
theorem InReach.lower (hd : IsDouble m e) (hq : InReach q m e) : (2 : ℚ) ^ (-1075 : ℤ) ≤ q := by
  have he := two_zpow_pos e
  have hm : (1 : ℚ) ≤ m := by exact_mod_cast hd.pos
  have hlow := hq.nearest.low
  calc (2 : ℚ) ^ (-1075 : ℤ) ≤ 2 ^ (e - 1) :=
        zpow_le_zpow_right₀ (by norm_num) (by have := hd.least; omega)
    _ = 1 / 2 * 2 ^ e := by
        rw [zpow_sub₀ (by norm_num), zpow_one]
        ring
    _ ≤ q / 2 ^ e * 2 ^ e := mul_le_mul_of_nonneg_right (by linarith) he.le
    _ = q := div_mul_cancel₀ _ he.ne'

/-- … and not larger than the next power of two after the largest one. -/
theorem InReach.upper (hd : IsDouble m e) (he : e ≤ 971) (hq : InReach q m e) :
    q < (2 : ℚ) ^ (1024 : ℤ) := by
  have hpos := two_zpow_pos e
  have hm : (m : ℚ) + 1 ≤ 2 ^ 53 := by
    have h : m + 1 ≤ 2 ^ 53 := hd.lt
    exact_mod_cast h
  have hhigh := hq.nearest.high
  calc q = q / 2 ^ e * 2 ^ e := (div_mul_cancel₀ _ hpos.ne').symm
    _ < 2 ^ 53 * 2 ^ e := mul_lt_mul_of_pos_right (by linarith) hpos
    _ = 2 ^ (53 + e) := by
        rw [zpow_add₀ (by norm_num)]
        norm_num
    _ ≤ 2 ^ (1024 : ℤ) := zpow_le_zpow_right₀ (by norm_num) (by omega)

/-- A power of ten has its odd part and its power of two. -/
theorem five_pow_mul_two_pow (k : ℕ) : ((5 ^ k : ℕ) : ℚ) * 2 ^ k = 10 ^ k := by
  push_cast
  rw [← mul_pow]
  norm_num

/-- A decimal without fraction within reach of a double is read as it. -/
theorem ofScientific_mul (hpos : 0 < n) (hk : k ≤ 400) (hd : IsDouble m e)
    (hq : InReach (n * 10 ^ k) m e) : Float.ofScientific n false k = ofDouble hd := by
  unfold Float.ofScientific
  -- A short mantissa and a small power of ten are both exact as doubles and multiplied as such.
  by_cases hfast : n < 2 ^ 53 ∧ k ≤ 22
  · obtain ⟨hn, hk⟩ := hfast
    rw [dif_pos ⟨hn, hk⟩, if_neg (by decide), toFloat_toUInt64 hpos hn,
      exactlyRepresentablePowersOfTen_eq hk]
    apply ofDouble_mul _ (by omega) _ (by omega) (le_shifted hpos hn) hd
    rw [shifted_value, shifted_value, five_pow_mul_two_pow, pow_zero, mul_one]
    exact hq
  · rw [dif_neg hfast, if_neg (by decide)]
    have hvalue : ((n <<< 53 : ℕ) : ℚ) * 2 ^ (-53 : ℤ) * ((10 ^ k : ℕ) * 2 ^ (0 : ℤ)) =
        n * 10 ^ k := by
      rw [Nat.shiftLeft_eq, zpow_neg, zpow_zero]
      push_cast
      norm_num
      ring
    rw [← hvalue] at hq
    have hbits : 2 ^ 52 ≤ n <<< 53 * 10 ^ k := by
      have := Nat.pow_pos (n := k) (by norm_num : 0 < 10)
      rw [Nat.shiftLeft_eq]
      nlinarith
    have hmul := mul_eq (by rw [Nat.shiftLeft_eq]; positivity) (by positivity) hbits hd hq
    have hmodel : UnpackedFloat.ofScientific Format.binary64 n k = .finite .positive m e hd.pos := by
      unfold UnpackedFloat.ofScientific
      rw [dif_neg hpos.ne', if_neg (by show ¬ (k : ℤ) > 2048; omega),
        if_neg (by show ¬ (k : ℤ) < -(2048 + n.log2); omega), if_pos (by omega)]
      exact hmul
    show Float.ofModel (.pack (UnpackedFloat.ofScientific Format.binary64 n k)) = ofDouble hd
    rw [hmodel]
    rfl

/-- A decimal that is within reach of a double is not smaller than all doubles, which bounds its exponent by
the length of its digits. -/
theorem lt_of_inReach_div (hd : IsDouble m e) (hq : InReach (n / 10 ^ k) m e) :
    k < n.log2 + 1076 := by
  have hlower := hq.lower hd
  have hten : (0 : ℚ) < 10 ^ k := by positivity
  have hn : (n : ℚ) < 2 ^ (n.log2 + 1) := by exact_mod_cast Nat.lt_log2_self
  rw [le_div_iff₀ hten] at hlower
  have hlt : (2 : ℚ) ^ ((-1075 : ℤ) + (k : ℕ)) < 2 ^ ((n.log2 + 1 : ℕ) : ℤ) := by
    calc (2 : ℚ) ^ ((-1075 : ℤ) + (k : ℕ)) = 2 ^ (-1075 : ℤ) * 2 ^ k := by
          rw [zpow_add₀ (by norm_num), zpow_natCast]
      _ ≤ 2 ^ (-1075 : ℤ) * 10 ^ k := by
          apply mul_le_mul_of_nonneg_left _ (two_zpow_pos _).le
          exact pow_le_pow_left₀ (by norm_num) (by norm_num) k
      _ ≤ n := hlower
      _ < 2 ^ (n.log2 + 1) := hn
      _ = 2 ^ ((n.log2 + 1 : ℕ) : ℤ) := (zpow_natCast _ _).symm
  have := lt_of_zpow_lt hlt
  omega

/-- Two finite numbers are equal if their mantissas are; the proofs of being positive do not matter. -/
theorem finite_congr {s : Sign} {m m' : ℕ} {e : ℤ} (h : m = m') (hm : 0 < m) (hm' : 0 < m') :
    UnpackedFloat.finite s m e hm = .finite s m' e hm' := by
  subst h
  rfl

/-- A decimal with a fraction within reach of a double is read as it. -/
theorem ofScientific_div (hpos : 0 < n) (hk : 0 < k) (hd : IsDouble m e)
    (hq : InReach (n / 10 ^ k) m e) : Float.ofScientific n true k = ofDouble hd := by
  unfold Float.ofScientific
  -- A short mantissa and a small power of ten are both exact as doubles and divided as such.
  by_cases hfast : n < 2 ^ 53 ∧ k ≤ 22
  · obtain ⟨hn, hk⟩ := hfast
    rw [dif_pos ⟨hn, hk⟩, if_pos rfl, toFloat_toUInt64 hpos hn,
      exactlyRepresentablePowersOfTen_eq hk]
    apply ofDouble_div _ (by omega) _ (by omega) hd
    rw [shifted_value, shifted_value, five_pow_mul_two_pow, pow_zero, mul_one]
    exact hq
  · rw [dif_neg hfast, if_pos rfl]
    have hvalue : (n : ℚ) * 2 ^ (0 : ℤ) / ((10 ^ k : ℕ) * 2 ^ (0 : ℤ)) = n / 10 ^ k := by
      rw [zpow_zero]
      push_cast
      norm_num
    have hsize := lt_of_inReach_div hd hq
    rw [← hvalue] at hq
    have hdiv := div_eq hpos (by positivity) hd hq
    have hneg : Int.negOfNat k = -(k : ℤ) := Int.negOfNat_eq
    have hmodel : UnpackedFloat.ofScientific Format.binary64 n (-k) =
        .finite .positive m e hd.pos := by
      have hten : 10 ^ (- -(k : ℤ)).toNat = 10 ^ k := congrArg (10 ^ ·) (by omega)
      unfold UnpackedFloat.ofScientific
      rw [dif_neg hpos.ne', if_neg (by show ¬ -(k : ℤ) > 2048; omega),
        if_neg (by show ¬ -(k : ℤ) < -(2048 + n.log2); omega), if_neg (by omega)]
      rw [finite_congr hten _ (Nat.pow_pos (Nat.succ_pos 9))]
      exact hdiv
    rw [hneg]
    show Float.ofModel (.pack (UnpackedFloat.ofScientific Format.binary64 n (-k))) = ofDouble hd
    rw [hmodel]
    rfl

/-- A power of ten is at least the power of eight with the same exponent, as long as that is not
negative. -/
theorem two_zpow_le_ten_zpow {j : ℤ} (hj : 0 ≤ j) : (2 : ℚ) ^ (3 * j) ≤ 10 ^ j := by
  rw [zpow_mul]
  exact zpow_le_zpow_left₀ hj (by norm_num) (by norm_num)

/-- With exponents that are not positive it is the other way round. These two bounds decide, without
computing it, that a decimal is too large or too small for any double. -/
theorem ten_zpow_le_two_zpow {j : ℤ} (hj : j ≤ 0) : (10 : ℚ) ^ j ≤ 2 ^ (3 * j) := by
  have h := two_zpow_le_ten_zpow (neg_nonneg.2 hj)
  rw [mul_neg, zpow_neg, zpow_neg] at h
  exact (inv_le_inv₀ (two_zpow_pos _) (zpow_pos (by norm_num) _)).1 h

/-- **A decimal within reach of a double is read as it.** The reader's limits for exponents are never met,
because a double has bounds of its own, and in between the decimal is a product or a quotient that is
rounded once. -/
theorem scale_eq {digits : ℕ} {k : ℤ} (hpos : 0 < n) (hn : n < 10 ^ digits) (hd : IsDouble m e)
    (he : e ≤ 971) (hq : InReach (n * 10 ^ k) m e) : scale n digits k = ofDouble hd := by
  have hlower := hq.lower hd
  have hupper := hq.upper hd he
  have hn₁ : (1 : ℚ) ≤ n := by exact_mod_cast hpos
  have hn₂ : (n : ℚ) < 10 ^ digits := by exact_mod_cast hn
  have hten : (0 : ℚ) < 10 ^ k := zpow_pos (by norm_num) k
  -- The reader gives up early for an exponent out of all range. A double is never that large or small,
  -- as the power of ten would exceed its bounds.
  have hlarge : ¬ 400 < k := by
    intro hk
    have h : (10 : ℚ) ^ k < 10 ^ (400 : ℤ) := by
      calc (10 : ℚ) ^ k ≤ n * 10 ^ k := le_mul_of_one_le_left hten.le hn₁
        _ < 2 ^ (1024 : ℤ) := hupper
        _ ≤ 2 ^ (3 * (400 : ℤ)) := zpow_le_zpow_right₀ (by norm_num) (by norm_num)
        _ ≤ 10 ^ (400 : ℤ) := two_zpow_le_ten_zpow (by norm_num)
    have := (zpow_lt_zpow_iff_right₀ (by norm_num)).1 h
    omega
  have hsmall : ¬ k + digits < -400 := by
    intro hk
    have h : (10 : ℚ) ^ (-359 : ℤ) < 10 ^ (k + digits) := by
      calc (10 : ℚ) ^ (-359 : ℤ) ≤ 2 ^ (3 * (-359 : ℤ)) := ten_zpow_le_two_zpow (by norm_num)
        _ ≤ 2 ^ (-1075 : ℤ) := zpow_le_zpow_right₀ (by norm_num) (by norm_num)
        _ ≤ n * 10 ^ k := hlower
        _ < 10 ^ digits * 10 ^ k := mul_lt_mul_of_pos_right hn₂ hten
        _ = 10 ^ (k + digits) := by
            rw [zpow_add₀ (by norm_num), zpow_natCast]
            ring
    have := (zpow_lt_zpow_iff_right₀ (by norm_num)).1 h
    omega
  unfold scale
  rw [if_neg hpos.ne', if_neg hlarge, if_neg hsmall]
  -- A power of ten is multiplied or, if it is negative, divided by.
  by_cases hk : 0 ≤ k
  · obtain ⟨j, rfl⟩ := Int.eq_ofNat_of_zero_le hk
    rw [zpow_natCast] at hq
    rw [if_pos hk]
    exact ofScientific_mul hpos (by omega) hd hq
  · obtain ⟨j, hj⟩ := Int.eq_ofNat_of_zero_le (by omega : 0 ≤ -k)
    have hk' : k = -(j : ℤ) := by omega
    subst hk'
    rw [zpow_neg, zpow_natCast, ← div_eq_mul_inv] at hq
    rw [if_neg hk, neg_neg]
    exact ofScientific_div hpos (by omega) hd hq

end Decimals

/-! ## 4. What is read has no sign -/

/-- No sign bit is set. -/
def Unsigned (x : Float) : Prop :=
  x.toBits.toNat < 2 ^ 63

/-- An unpacked number without sign. -/
def IsPositive : UnpackedFloat → Prop
  | .notANumber => True
  | .infinity s | .zero s | .finite s _ _ _ => s = .positive

section Sign

variable {u v : UnpackedFloat} {x y : Float}

/-- A number that is packed with a positive sign has its highest bit unset. -/
theorem packComponents_lt (e : BitVec 11) (m : BitVec 52) :
    (packComponents Format.binary64 .positive e m).toNat < 2 ^ 63 := by
  have he := e.isLt
  have hm := m.isLt
  rw [packComponents_toNat]
  omega

/-- Packing what has no sign gives a double without sign, in each of the four kinds of numbers. -/
theorem unsigned_pack (h : IsPositive u) : Unsigned (.ofModel (.pack u)) := by
  show (UnpackedFloat.pack Format.binary64 u).toNat < 2 ^ 63
  cases u with
  | notANumber => exact packComponents_lt _ _
  | infinity s =>
    obtain rfl : s = .positive := h
    exact packComponents_lt _ _
  | zero s =>
    obtain rfl : s = .positive := h
    exact packComponents_lt _ _
  | finite s m e hpos =>
    obtain rfl : s = .positive := h
    unfold UnpackedFloat.pack
    dsimp only
    split
    · exact packComponents_lt _ _
    · split
      · exact packComponents_lt _ _
      · exact packComponents_lt _ _

/-- Of two numbers without sign either has none. -/
theorem isPositive_ite {p : Prop} [Decidable p] (hu : IsPositive u) (hv : IsPositive v) :
    IsPositive (if p then u else v) := by
  by_cases h : p
  · rwa [if_pos h]
  · rwa [if_neg h]

/-- The same where the choice is also known to the numbers. -/
theorem isPositive_dite {p : Prop} [Decidable p] {a : p → UnpackedFloat} {b : ¬p → UnpackedFloat}
    (ha : ∀ h, IsPositive (a h)) (hb : ∀ h, IsPositive (b h)) :
    IsPositive (if h : p then a h else b h) := by
  by_cases h : p
  · rw [dif_pos h]
    exact ha h
  · rw [dif_neg h]
    exact hb h

/-- Unpacking a double without sign gives what has no sign, since the sign is its highest bit. -/
theorem Unsigned.unpack (h : Unsigned x) : IsPositive x.toModel.unpack := by
  have hsign : Sign.ofBitVec (@unpackSign Format.binary64 x.toBits.toBitVec) =
      .positive := by
    unfold Sign.ofBitVec
    rw [if_pos]
    apply BitVec.eq_of_toNat_eq
    rw [unpackSign_toNat]
    exact Nat.div_eq_of_lt h
  show IsPositive (UnpackedFloat.unpack Format.binary64 x.toBits.toBitVec)
  unfold UnpackedFloat.unpack
  dsimp only
  rw [hsign]
  -- Not a number or infinite, and then subnormal or not.
  refine isPositive_ite (isPositive_ite rfl trivial) (isPositive_ite ?_ rfl)
  exact isPositive_dite (fun _ => rfl) fun _ => rfl

/-- Rounding what has no sign does not give it one. -/
theorem isPositive_roundWithAccuracy (m : ℕ) (e : ℤ) (a : Accuracy) :
    IsPositive (roundWithAccuracy Format.binary64 .positive m e a) := by
  unfold roundWithAccuracy
  exact isPositive_dite (fun _ => rfl) fun _ => rfl

/-- A product of numbers without sign has none; this includes infinities and zeros. -/
theorem IsPositive.mul (hu : IsPositive u) (hv : IsPositive v) :
    IsPositive (UnpackedFloat.mul Format.binary64 u v) := by
  cases u <;> cases v <;> cases hu <;> cases hv <;>
    first | trivial | rfl | exact isPositive_roundWithAccuracy _ _ _

/-- A quotient of them has none either. -/
theorem IsPositive.div (hu : IsPositive u) (hv : IsPositive v) :
    IsPositive (UnpackedFloat.div Format.binary64 u v) := by
  cases u <;> cases v <;> cases hu <;> cases hv <;>
    first | trivial | rfl | exact isPositive_roundWithAccuracy _ _ _

theorem unsigned_ofDouble {m : ℕ} {e : ℤ} (hd : IsDouble m e) : Unsigned (ofDouble hd) :=
  unsigned_pack (u := .finite .positive m e hd.pos) rfl

/-- Digits without sign are scaled to a number without sign, too large and too small ones included. -/
theorem isPositive_ofScientific (n : ℕ) (k : ℤ) :
    IsPositive (UnpackedFloat.ofScientific Format.binary64 n k) := by
  unfold UnpackedFloat.ofScientific
  -- Zero, too large and too small are known without rounding.
  refine isPositive_dite (fun _ => rfl) fun _ => isPositive_ite rfl (isPositive_ite rfl ?_)
  exact isPositive_ite (isPositive_roundWithAccuracy _ _ _) (isPositive_roundWithAccuracy _ _ _)

/-- Both ways of computing a decimal keep to doubles without sign. -/
theorem unsigned_ofScientific (n : ℕ) (fractional : Bool) (k : ℕ) :
    Unsigned (Float.ofScientific n fractional k) := by
  unfold Float.ofScientific
  split
  next hfast =>
    have hn : Unsigned n.toUInt64.toFloat := by
      by_cases hzero : n = 0
      · subst hzero
        exact unsigned_pack (u := .zero .positive) rfl
      · rw [toFloat_toUInt64 (Nat.pos_of_ne_zero hzero) hfast.1]
        exact unsigned_ofDouble _
    dsimp only
    rw [exactlyRepresentablePowersOfTen_eq hfast.2]
    split
    · exact unsigned_pack (hn.unpack.div (unsigned_ofDouble _).unpack)
    · exact unsigned_pack (hn.unpack.mul (unsigned_ofDouble _).unpack)
  next =>
    exact unsigned_pack (isPositive_ofScientific _ _)

/-- What is read from digits and an exponent has no sign; that of the text is put in front afterwards. -/
theorem unsigned_scale (n digits : ℕ) (k : ℤ) : Unsigned (scale n digits k) := by
  unfold scale
  split
  · exact unsigned_pack (u := .zero .positive) rfl
  split
  · exact unsigned_pack (u := .infinity .positive) rfl
  split
  · exact unsigned_pack (u := .zero .positive) rfl
  split
  · exact unsigned_ofScientific _ _ _
  · exact unsigned_ofScientific _ _ _

/-- A double without sign that stands for a number stands for none that is negative. -/
theorem Unsigned.negative (h : Unsigned x) {b : Binary} (hdecode : decode x = some b) :
    b.negative = false := by
  have h : x.toBits.toNat < 2 ^ 63 := h
  unfold decode at hdecode
  dsimp only [Nat.pow_eq] at hdecode
  split at hdecode
  · cases hdecode
  split at hdecode
  · cases hdecode
    apply decide_eq_false
    omega
  · cases hdecode
    apply decide_eq_false
    omega

end Sign

end BlockConfig.Decimal
