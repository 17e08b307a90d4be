import BlockConfig.Decimal.Shortest
import BlockConfig.Proofs.Decimal.Digits
import BlockConfig.Proofs.Decimal.Rounding

/-!
The shortest decimal lies within reach of its double.

The interval around a double holds only numbers within its reach (`inReach_of_contains`), and the search
for a decimal in it ends with one (`search_spec`): seventeen digits are always enough, since the last of
them counts for less than the last place of the double.
-/

set_option autoImplicit false

namespace BlockConfig.Decimal

/-! ## 1. The interval as rationals -/

namespace Interval

variable {i : Interval} {n d : ℕ}

/-- What the interval contains lies between its ends … -/
theorem bounds_of_contains (hden : 0 < i.denominator) (hd : 0 < d) (h : i.contains n d = true) :
    ((i.low : ℚ) / i.denominator ≤ n / d ∧ (n : ℚ) / d ≤ i.high / i.denominator) ∧
      (i.closed = false →
        (i.low : ℚ) / i.denominator < n / d ∧ (n : ℚ) / d < i.high / i.denominator) := by
  have hden' : (0 : ℚ) < i.denominator := by exact_mod_cast hden
  have hd' : (0 : ℚ) < d := by exact_mod_cast hd
  rw [div_le_div_iff₀ hden' hd', div_le_div_iff₀ hd' hden', div_lt_div_iff₀ hden' hd',
    div_lt_div_iff₀ hd' hden']
  unfold contains at h
  by_cases hclosed : i.closed = true
  · rw [if_pos hclosed, Bool.and_eq_true, decide_eq_true_eq, decide_eq_true_eq] at h
    refine ⟨by exact_mod_cast h, fun hopen => ?_⟩
    rw [hopen] at hclosed
    cases hclosed
  · rw [if_neg hclosed, Bool.and_eq_true, decide_eq_true_eq, decide_eq_true_eq] at h
    have h' : (i.low : ℚ) * d < n * i.denominator ∧ (n : ℚ) * i.denominator < i.high * d := by
      exact_mod_cast h
    exact ⟨⟨h'.1.le, h'.2.le⟩, fun _ => h'⟩

/-- … and the interval contains what lies between them. -/
theorem contains_of_bounds (hden : 0 < i.denominator) (hd : 0 < d)
    (hlow : (i.low : ℚ) / i.denominator < n / d) (hhigh : (n : ℚ) / d < i.high / i.denominator) :
    i.contains n d = true := by
  have hden' : (0 : ℚ) < i.denominator := by exact_mod_cast hden
  have hd' : (0 : ℚ) < d := by exact_mod_cast hd
  rw [div_lt_div_iff₀ hden' hd'] at hlow
  rw [div_lt_div_iff₀ hd' hden'] at hhigh
  have hlow : i.low * d < n * i.denominator := by exact_mod_cast hlow
  have hhigh : n * i.denominator < i.high * d := by exact_mod_cast hhigh
  unfold contains
  split
  · rw [Bool.and_eq_true, decide_eq_true_eq, decide_eq_true_eq]
    exact ⟨hlow.le, hhigh.le⟩
  · rw [Bool.and_eq_true, decide_eq_true_eq, decide_eq_true_eq]
    exact ⟨hlow, hhigh⟩

end Interval

/-- How far the interval reaches below its value, in quarters of the last place. -/
def gapBelow (narrow : Bool) : ℕ :=
  if narrow then 1 else 2

section OfBinary

variable {b : Binary}

/-- A double that says of itself whether the next smaller one is near. -/
structure Binary.IsExact (b : Binary) : Prop where
  double : IsDouble b.significand b.exponent
  narrow : b.narrow = decide (b.significand = 2 ^ 52 ∧ -1074 < b.exponent)

theorem gapBelow_le (narrow : Bool) : gapBelow narrow ≤ 2 := by
  cases narrow <;> decide

theorem ofBinary_denominator_pos (b : Binary) : 0 < (Interval.ofBinary b).denominator :=
  Nat.two_pow_pos _

theorem scale_div_denominator (e : ℤ) :
    ((2 ^ (e - 2).toNat : ℕ) : ℚ) / (2 ^ (2 - e).toNat : ℕ) = 2 ^ e / 4 := by
  have h4 : (4 : ℚ) = 2 ^ (2 : ℤ) := by norm_num
  rw [h4, ← zpow_sub₀ (by norm_num)]
  push_cast
  rw [← zpow_natCast, ← zpow_natCast, ← zpow_sub₀ (by norm_num)]
  congr 1
  omega

theorem ofBinary_value (b : Binary) :
    ((Interval.ofBinary b).value : ℚ) / (Interval.ofBinary b).denominator =
      b.significand * 2 ^ b.exponent := by
  show ((4 * b.significand * 2 ^ (b.exponent - 2).toNat : ℕ) : ℚ) /
    (2 ^ (2 - b.exponent).toNat : ℕ) = _
  rw [Nat.cast_mul, mul_div_assoc, scale_div_denominator]
  push_cast
  ring

/-- The lower end of the interval in which decimals are read as a double: half of a gap below it, or a
quarter where the gap below is the narrower one. -/
theorem ofBinary_low (hpos : 0 < b.significand) :
    ((Interval.ofBinary b).low : ℚ) / (Interval.ofBinary b).denominator =
      (b.significand - gapBelow b.narrow / 4) * 2 ^ b.exponent := by
  have hgap : gapBelow b.narrow ≤ 4 * b.significand := by
    have := gapBelow_le b.narrow
    omega
  show (((4 * b.significand - gapBelow b.narrow) * 2 ^ (b.exponent - 2).toNat : ℕ) : ℚ) /
    (2 ^ (2 - b.exponent).toNat : ℕ) = _
  rw [Nat.cast_mul, mul_div_assoc, scale_div_denominator, Nat.cast_sub hgap]
  push_cast
  ring

theorem ofBinary_high (b : Binary) :
    ((Interval.ofBinary b).high : ℚ) / (Interval.ofBinary b).denominator =
      (b.significand + 1 / 2) * 2 ^ b.exponent := by
  show (((4 * b.significand + 2) * 2 ^ (b.exponent - 2).toNat : ℕ) : ℚ) /
    (2 ^ (2 - b.exponent).toNat : ℕ) = _
  rw [Nat.cast_mul, mul_div_assoc, scale_div_denominator]
  push_cast
  ring

/-- **The interval of a double holds only numbers within its reach.** It goes half way to the next double on
either side, and its ends belong to it if the mantissa is even, as ties are rounded to even. -/
theorem inReach_of_contains (hb : b.IsExact) {n d : ℕ} (hd : 0 < d)
    (h : (Interval.ofBinary b).contains n d = true) :
    InReach ((n : ℚ) / d) b.significand b.exponent := by
  have hpos := hb.double.pos
  have he := two_zpow_pos b.exponent
  obtain ⟨⟨hlow, hhigh⟩, hopen⟩ := Interval.bounds_of_contains (ofBinary_denominator_pos b) hd h
  rw [ofBinary_low hpos, ← le_div_iff₀ he] at hlow
  rw [ofBinary_high, ← div_le_iff₀ he] at hhigh
  rw [ofBinary_low hpos, ofBinary_high, ← lt_div_iff₀ he, ← div_lt_iff₀ he] at hopen
  have hgap : (gapBelow b.narrow : ℚ) ≤ 2 := by exact_mod_cast gapBelow_le b.narrow
  constructor
  · refine ⟨by linarith, by linarith, fun hodd => ?_⟩
    have hclosed : (Interval.ofBinary b).closed = false := by
      apply decide_eq_false
      show ¬ b.significand % 2 = 0
      omega
    obtain ⟨hlow, hhigh⟩ := hopen hclosed
    constructor <;> linarith
  · intro hm he
    have hnarrow : b.narrow = true := by
      rw [hb.narrow]
      exact decide_eq_true ⟨hm, he⟩
    have hone : (gapBelow b.narrow : ℚ) = 1 := by
      rw [hnarrow]
      norm_num [gapBelow]
    rw [hone] at hlow
    exact hlow

end OfBinary

/-! ## 2. Multiples of a power of ten -/

theorem ten_zpow_pos (k : ℤ) : (0 : ℚ) < 10 ^ k :=
  zpow_pos (by norm_num) k

theorem multiple_value (n : ℕ) (k : ℤ) :
    ((n * 10 ^ k.toNat : ℕ) : ℚ) / (10 ^ (-k).toNat : ℕ) = n * 10 ^ k := by
  push_cast
  rw [mul_div_assoc, ← zpow_natCast, ← zpow_natCast, ← zpow_sub₀ (by norm_num)]
  congr 2
  omega

namespace Interval

variable {i : Interval} {k e : ℤ} {n : ℕ}

/-- A multiple that is found is in the interval; it is one of the two next to the middle, and has been asked
for there. -/
theorem contains_of_nearestMultiple? (h : i.nearestMultiple? k = some n) :
    i.contains (n * 10 ^ k.toNat) (10 ^ (-k).toNat) = true := by
  unfold nearestMultiple? at h
  dsimp only at h
  split at h
  next hboth =>
    rw [Bool.and_eq_true] at hboth
    split at h
    · cases h
      exact hboth.2
    · cases h
      exact hboth.1
  next =>
    split at h
    next hbelow =>
      cases h
      exact hbelow
    next =>
      split at h
      next habove =>
        cases h
        exact habove
      next => cases h

/-- The multiple next below the value. -/
def below (i : Interval) (k : ℤ) : ℕ :=
  i.value * 10 ^ (-k).toNat / (i.denominator * 10 ^ k.toNat)

/-- If one of the two next multiples is in the interval, then one is found. -/
theorem exists_nearestMultiple?
    (h : i.contains (i.below k * 10 ^ k.toNat) (10 ^ (-k).toNat) = true ∨
      i.contains ((i.below k + 1) * 10 ^ k.toNat) (10 ^ (-k).toNat) = true) :
    ∃ n, i.nearestMultiple? k = some n := by
  unfold below at h
  unfold nearestMultiple?
  dsimp only [Nat.pow_eq]
  split
  next =>
    split
    · exact ⟨_, rfl⟩
    · exact ⟨_, rfl⟩
  next hboth =>
    split
    next => exact ⟨_, rfl⟩
    next hbelow =>
      have habove := h.resolve_left hbelow
      rw [if_pos habove]
      exact ⟨_, rfl⟩

/-- The value lies between two multiples next to each other. -/
theorem below_bounds (hden : 0 < i.denominator) :
    (i.below k : ℚ) * 10 ^ k ≤ i.value / i.denominator ∧
      (i.value : ℚ) / i.denominator < (i.below k + 1) * 10 ^ k := by
  have hden' : (0 : ℚ) < i.denominator := by exact_mod_cast hden
  have hdown : (0 : ℚ) < (10 ^ (-k).toNat : ℕ) := by exact_mod_cast Nat.pow_pos (by norm_num)
  have hpos : 0 < i.denominator * 10 ^ k.toNat := by positivity
  have hle : i.below k * (i.denominator * 10 ^ k.toNat) ≤ i.value * 10 ^ (-k).toNat :=
    Nat.div_mul_le_self _ _
  have hlt : i.value * 10 ^ (-k).toNat < (i.below k + 1) * (i.denominator * 10 ^ k.toNat) :=
    Nat.lt_mul_of_div_lt (Nat.lt_succ_self _) hpos
  have hcast : ((i.below k : ℚ) + 1) = (i.below k + 1 : ℕ) := by push_cast; rfl
  rw [hcast, ← multiple_value, ← multiple_value, div_le_div_iff₀ hdown hden',
    div_lt_div_iff₀ hden' hdown]
  constructor
  · have hle : i.below k * 10 ^ k.toNat * i.denominator ≤ i.value * 10 ^ (-k).toNat := by
      linarith
    exact_mod_cast hle
  · have hlt : i.value * 10 ^ (-k).toNat < (i.below k + 1) * 10 ^ k.toNat * i.denominator := by
      linarith
    exact_mod_cast hlt

/-- The search finds a multiple in the interval if there is one with all seventeen digits. -/
theorem search_spec (hlast : ∃ n, i.nearestMultiple? (e - 16) = some n) :
    ∀ left, 0 < left → i.nearestMultiple? (i.search e left).2 = some (i.search e left).1 := by
  intro left hleft
  induction left with
  | zero => omega
  | succ left ih =>
    unfold search
    dsimp only
    split
    next n hn => exact hn
    next hnone =>
      apply ih
      by_contra hzero
      obtain ⟨n, hn⟩ := hlast
      have hleft : left = 0 := by omega
      subst hleft
      rw [Nat.cast_zero, add_zero, hn] at hnone
      cases hnone

end Interval

/-! ## 3. Seventeen digits -/

section Digits

variable {b : Binary} {k : ℤ}

/-- Seventeen digits are enough for a decimal in the interval. -/
theorem exists_multiple (hb : b.IsExact)
    (hk : (10 : ℚ) ^ 16 * 10 ^ k ≤ b.significand * 2 ^ b.exponent) :
    ∃ n, (Interval.ofBinary b).nearestMultiple? k = some n := by
  have hden := ofBinary_denominator_pos b
  have hlow := ofBinary_low hb.double.pos
  have hhigh := ofBinary_high b
  obtain ⟨hle, hlt⟩ := Interval.below_bounds (k := k) hden
  have hdown : 0 < 10 ^ (-k).toNat := Nat.pow_pos (by norm_num)
  rw [ofBinary_value] at hle hlt
  have hnarrow := hb.narrow
  have hm : (b.significand : ℚ) < 2 ^ 53 := by exact_mod_cast hb.double.lt
  have hu := two_zpow_pos b.exponent
  have hw := ten_zpow_pos k
  generalize Interval.ofBinary b = i at *
  generalize (2 : ℚ) ^ b.exponent = u at *
  generalize b.significand = m at *
  generalize b.exponent = e at *
  generalize b.narrow = narrow at *
  have hcast : ((i.below k + 1 : ℕ) : ℚ) = i.below k + 1 := by push_cast; rfl
  -- The value lies between two multiples next to each other. The lower one is in the interval if it is
  -- not too far down, the upper one if it is not too far up.
  have hbelow : (m - gapBelow narrow / 4) * u < i.below k * 10 ^ k →
      i.contains (i.below k * 10 ^ k.toNat) (10 ^ (-k).toNat) = true := by
    intro h
    apply Interval.contains_of_bounds hden hdown
    · rw [hlow, multiple_value]
      exact h
    · rw [hhigh, multiple_value]
      nlinarith
  have habove : (i.below k + 1) * 10 ^ k < (m + 1 / 2) * u →
      i.contains ((i.below k + 1) * 10 ^ k.toNat) (10 ^ (-k).toNat) = true := by
    intro h
    have hgap : (0 : ℚ) ≤ gapBelow narrow := Nat.cast_nonneg _
    apply Interval.contains_of_bounds hden hdown
    · rw [hlow, multiple_value, hcast]
      nlinarith
    · rw [hhigh, multiple_value, hcast]
      exact h
  apply Interval.exists_nearestMultiple?
  generalize (10 : ℚ) ^ k = w at *
  by_cases hn : m = 2 ^ 52 ∧ -1074 < e
  · -- Below a power of two the last digit counts for less than half of the last place.
    have hm' : (m : ℚ) = 2 ^ 52 := by exact_mod_cast hn.1
    rw [hm'] at hk
    have hsmall : w < u / 2 := by
      norm_num at hk
      linarith
    right
    apply habove
    nlinarith
  -- Elsewhere the interval is as wide below as above, and wider than the distance of two multiples, so
  -- that the nearer one of them is in it.
  · rw [decide_eq_false hn] at hnarrow
    subst hnarrow
    have hgap : (gapBelow false : ℚ) = 2 := by norm_num [gapBelow]
    rw [hgap] at hbelow
    have hsmall : w < u := by
      have hmu : (m : ℚ) * u < 2 ^ 53 * u := mul_lt_mul_of_pos_right hm hu
      norm_num at hk hmu
      linarith
    by_cases hnear : (i.below k + 1) * w - m * u ≤ w / 2
    · right
      apply habove
      nlinarith
    · left
      apply hbelow
      nlinarith

theorem ten_pow_pred_length_le {n : ℕ} (hn : 0 < n) : 10 ^ ((natDigits n).length - 1) ≤ n := by
  unfold natDigits
  by_contra hlt
  have hpos := Nat.length_toDigits_pos (b := 10) (n := n)
  by_cases hone : (Nat.toDigits 10 n).length = 1
  · rw [hone, Nat.sub_self, pow_zero] at hlt
    omega
  · have := (Nat.length_toDigits_le_iff (by norm_num) (by omega)).2 (not_le.1 hlt)
    omega

theorem lt_ten_pow_length (n : ℕ) : n < 10 ^ (natDigits n).length :=
  (Nat.length_toDigits_le_iff (by norm_num) Nat.length_toDigits_pos).1 le_rfl

/-- The decimal exponent is no larger than that of the value. -/
theorem ten_zpow_decimalExponent_le {i : Interval} (hden : 0 < i.denominator)
    (hvalue : 0 < i.value) : (10 : ℚ) ^ i.decimalExponent ≤ i.value / i.denominator := by
  have hden' : (0 : ℚ) < i.denominator := by exact_mod_cast hden
  rw [le_div_iff₀ hden']
  unfold Interval.decimalExponent
  split
  next hle =>
    -- The value is at least one, and the digits of its whole part are counted.
    have hquot : 0 < i.value / i.denominator := Nat.div_pos hle hden
    have hlen : (natDigits (i.value / i.denominator)).length =
        (natDigits (i.value / i.denominator)).length - 1 + 1 := by
      have : 0 < (natDigits (i.value / i.denominator)).length := Nat.length_toDigits_pos
      omega
    have hpow := ten_pow_pred_length_le hquot
    have hmul := Nat.div_mul_le_self i.value i.denominator
    rw [hlen]
    push_cast
    rw [add_sub_cancel_right, zpow_natCast]
    have h : 10 ^ ((natDigits (i.value / i.denominator)).length - 1) * i.denominator ≤ i.value :=
      le_trans (Nat.mul_le_mul_right _ hpow) hmul
    exact_mod_cast h
  next =>
    have hlt := lt_ten_pow_length (i.denominator / i.value)
    have hmul : i.denominator < 10 ^ (natDigits (i.denominator / i.value)).length * i.value :=
      Nat.lt_mul_of_div_lt hlt hvalue
    have hmul : (i.denominator : ℚ) <
        10 ^ (natDigits (i.denominator / i.value)).length * i.value := by exact_mod_cast hmul
    rw [zpow_neg, zpow_natCast, inv_mul_le_iff₀ (by positivity)]
    exact hmul.le

/-- **The shortest decimal is within reach of its double.** The search tries more and more digits, takes the
first decimal that it finds in the interval of the double, and finds one with seventeen digits at the
latest. -/
theorem shortest_spec (hb : b.IsExact) :
    ∃ (n : ℕ) (k : ℤ), 0 < n ∧ InReach (n * 10 ^ k) b.significand b.exponent ∧
      shortest b = ⟨dropZeros (natDigits n), (natDigits n).length + k⟩ := by
  have hden := ofBinary_denominator_pos b
  have hvalue := ofBinary_value b
  have hm : (1 : ℚ) ≤ b.significand := by exact_mod_cast hb.double.pos
  obtain ⟨i, hi⟩ : ∃ i, i = Interval.ofBinary b := ⟨_, rfl⟩
  rw [← hi] at hden hvalue
  have hpos : 0 < i.value := by
    have hv : (0 : ℚ) < i.value / i.denominator := by
      rw [hvalue]
      exact mul_pos (by linarith) (two_zpow_pos _)
    by_contra hzero
    rw [Nat.eq_zero_of_not_pos hzero, Nat.cast_zero, zero_div] at hv
    exact lt_irrefl _ hv
  -- The search is over with seventeen digits at the latest.
  have hlast : ∃ n, i.nearestMultiple? (i.decimalExponent - 16) = some n := by
    rw [hi]
    apply exists_multiple hb
    rw [← hi, ← hvalue, ← zpow_natCast, ← zpow_add₀ (by norm_num)]
    have hexp : ((16 : ℕ) : ℤ) + (i.decimalExponent - 16) = i.decimalExponent := by
      push_cast
      ring
    rw [hexp]
    exact ten_zpow_decimalExponent_le hden hpos
  have hsearch := Interval.contains_of_nearestMultiple?
    (Interval.search_spec hlast 17 (by norm_num))
  have hreach := inReach_of_contains hb (Nat.pow_pos (by norm_num)) (hi ▸ hsearch)
  rw [multiple_value, ← hi] at hreach
  refine ⟨(i.search i.decimalExponent 17).1, (i.search i.decimalExponent 17).2, ?_, hreach, ?_⟩
  · by_contra hzero
    have hlow := hreach.nearest.low
    rw [Nat.eq_zero_of_not_pos hzero, Nat.cast_zero, zero_mul, zero_div] at hlow
    linarith
  · unfold shortest
    rw [← hi]

end Digits

end BlockConfig.Decimal
