import Mathlib.Algebra.Order.Field.Power
import Mathlib.Data.Rat.Cast.Order
import Mathlib.Tactic.FieldSimp
import Mathlib.Tactic.Linarith
import Mathlib.Tactic.Ring

/-!
Rounding to doubles.

A double is built from a mantissa and what is known about the rest: whether there is one, and whether
it is less or more than half of the last place. This file says which number comes out: whenever a
rational number is within reach of a double, closer to it than to its neighbours, rounding gives that
double (`roundWithAccuracy_eq`).

The argument follows the rounding. What is known about a mantissa locates a rational number between
two whole ones (`Located`), a shift to the right halves the number, and a located number is rounded to
the nearest whole one. What is left is to find the exponent that rounding aims at. It is the one of the
double, with one exception: below a power of two the numbers lie closer together, and there rounding
first arrives at a mantissa that is one bit too long.
-/

set_option autoImplicit false

namespace BlockConfig.Decimal

open Float.Model Float.Model.UnpackedFloat

/-! ## 1. Located numbers -/

/-- Where a number lies, by a mantissa and what is known about the rest. -/
def Located : ExtendedMantissa → ℚ → Prop
  | ⟨m, false, false⟩, y => y = m
  | ⟨m, false, true⟩, y => (m : ℚ) < y ∧ y < m + 1 / 2
  | ⟨m, true, false⟩, y => y = m + 1 / 2
  | ⟨m, true, true⟩, y => (m : ℚ) + 1 / 2 < y ∧ y < m + 1

/-- The nearest whole number, of two equally near ones the even one. -/
structure Nearest (y : ℚ) (m : ℕ) : Prop where
  low : (m : ℚ) - 1 / 2 ≤ y
  high : y ≤ m + 1 / 2
  odd : m % 2 = 1 → (m : ℚ) - 1 / 2 < y ∧ y < m + 1 / 2

section Located

variable {em : ExtendedMantissa} {y : ℚ}

theorem Located.bounds (h : Located em y) : (em.mantissa : ℚ) ≤ y ∧ y < em.mantissa + 1 := by
  obtain ⟨m, r, s⟩ := em
  cases r <;> cases s <;> simp only [Located] at h ⊢ <;> constructor <;> linarith

/-- A shift to the right by one place halves the number. -/
theorem Located.half (h : Located em y) : Located em.shiftRightOne (y / 2) := by
  obtain ⟨m, r, s⟩ := em
  obtain ⟨k, rfl | rfl⟩ := Nat.even_or_odd' m
  · have hdiv : 2 * k / 2 = k := by omega
    have hmod : (2 * k % 2 != 0) = false := by simp
    unfold ExtendedMantissa.shiftRightOne
    rw [hdiv, hmod]
    cases r <;> cases s <;> simp only [Located, Bool.or_true, Bool.or_false] at h ⊢ <;>
      push_cast at h
    · linarith
    all_goals constructor <;> linarith
  · have hdiv : (2 * k + 1) / 2 = k := by omega
    have hmod : ((2 * k + 1) % 2 != 0) = true := by simp [Nat.add_mod]
    unfold ExtendedMantissa.shiftRightOne
    rw [hdiv, hmod]
    cases r <;> cases s <;> simp only [Located, Bool.or_true, Bool.or_false] at h ⊢ <;>
      push_cast at h
    · linarith
    all_goals constructor <;> linarith

theorem Located.shift (h : Located em y) (n : ℕ) : Located (em >>> n) (y / 2 ^ n) := by
  induction n with
  | zero =>
    rw [pow_zero, div_one]
    exact h
  | succ n ih =>
    have hstep := ih.half
    rw [div_div, ← pow_succ] at hstep
    exact hstep

/-- **A located number is rounded to the nearest one.** The two bits that are kept of what was cut off say
whether it lies at a number, below the middle, in it or above it, and in the middle the even number is
taken. -/
theorem Located.roundedMantissa (h : Located em y) {m : ℕ} (hm : Nearest y m) :
    em.roundedMantissa = m := by
  obtain ⟨hlow, hhigh, hodd⟩ := hm
  obtain ⟨k, r, s⟩ := em
  cases r <;> cases s <;> simp only [Located] at h
  · have h1 : (m : ℚ) < k + 1 := by linarith
    have h2 : (k : ℚ) < m + 1 := by linarith
    have h1 : m < k + 1 := by exact_mod_cast h1
    have h2 : k < m + 1 := by exact_mod_cast h2
    show k = m
    omega
  · have h1 : (m : ℚ) < k + 1 := by linarith
    have h2 : (k : ℚ) < m + 1 := by linarith
    have h1 : m < k + 1 := by exact_mod_cast h1
    have h2 : k < m + 1 := by exact_mod_cast h2
    show k = m
    omega
  · have h1 : (m : ℚ) ≤ k + 1 := by linarith
    have h2 : (k : ℚ) ≤ m := by linarith
    have h1 : m ≤ k + 1 := by exact_mod_cast h1
    have h2 : k ≤ m := by exact_mod_cast h2
    show k + k % 2 = m
    -- Half way between two numbers, and `m` is the even one.
    by_cases hpar : m % 2 = 1
    · obtain ⟨h3, h4⟩ := hodd hpar
      have h3 : (m : ℚ) < k + 1 := by linarith
      have h4 : (k : ℚ) < m := by linarith
      have h3 : m < k + 1 := by exact_mod_cast h3
      have h4 : k < m := by exact_mod_cast h4
      omega
    · omega
  · have h1 : (m : ℚ) < k + 2 := by linarith
    have h2 : (k : ℚ) < m := by linarith
    have h1 : m < k + 2 := by exact_mod_cast h1
    have h2 : k < m := by exact_mod_cast h2
    show k + 1 = m
    omega

end Located

/-! ## 2. Doubles -/

/-- The mantissas and exponents of doubles: at most 53 bits, and fewer only with the least exponent. -/
structure IsDouble (m : ℕ) (e : ℤ) : Prop where
  pos : 0 < m
  lt : m < 2 ^ 53
  least : -1074 ≤ e
  normal : e = -1074 ∨ 2 ^ 52 ≤ m

/-- A number is closer to a double than to its neighbours, or as close and the double is even. Below
a power of two the neighbour is only half as far away as above it. -/
structure InReach (q : ℚ) (m : ℕ) (e : ℤ) : Prop where
  nearest : Nearest (q / 2 ^ e) m
  narrow : m = 2 ^ 52 → -1074 < e → (m : ℚ) - 1 / 4 ≤ q / 2 ^ e

theorem targetExponent_eq (t : ℤ) : Format.binary64.targetExponent t = max (t - 53) (-1074) := rfl

section Exponents

variable {q : ℚ} {m M : ℕ} {e E : ℤ} {a : Accuracy}

theorem two_zpow_pos (e : ℤ) : (0 : ℚ) < 2 ^ e :=
  zpow_pos (by norm_num) e

theorem log2_lt_of_lt {k : ℕ} (hM : M ≠ 0) (h : M < 2 ^ k) : M.log2 < k :=
  (Nat.log2_lt hM).2 h

/-- The size of a number is that of what locates it. -/
theorem size_of_located (h : Located (.ofMantissaAndAccuracy M a) (q / 2 ^ E)) :
    q < 2 ^ totalExponent M E ∧ (M ≠ 0 → (2 : ℚ) ^ (totalExponent M E - 1) ≤ q) := by
  have hbounds := h.bounds
  -- How exact it is does not count for the size; the mantissa does.
  have hmantissa : (ExtendedMantissa.ofMantissaAndAccuracy M a).mantissa = M := by
    cases a with
    | exact => rfl
    | inexact o => cases o <;> rfl
  rw [hmantissa] at hbounds
  obtain ⟨hlow, hhigh⟩ := hbounds
  have hE := two_zpow_pos E
  have htotal : totalExponent M E = (M.log2 + 1 : ℕ) + E := by
    rw [totalExponent]
    push_cast
    ring
  constructor
  · have h1 : M + 1 ≤ 2 ^ (M.log2 + 1) := Nat.lt_log2_self
    have h2 : (M : ℚ) + 1 ≤ 2 ^ (M.log2 + 1) := by exact_mod_cast h1
    rw [div_lt_iff₀ hE] at hhigh
    rw [htotal, zpow_add₀ (by norm_num), zpow_natCast]
    exact lt_of_lt_of_le hhigh (mul_le_mul_of_nonneg_right h2 hE.le)
  · intro hM
    have h1 : 2 ^ M.log2 ≤ M := Nat.log2_self_le hM
    have h2 : (2 : ℚ) ^ M.log2 ≤ M := by exact_mod_cast h1
    have hsub : totalExponent M E - 1 = (M.log2 : ℕ) + E := by
      rw [htotal]
      push_cast
      ring
    rw [le_div_iff₀ hE] at hlow
    rw [hsub, zpow_add₀ (by norm_num), zpow_natCast]
    exact le_trans (mul_le_mul_of_nonneg_right h2 hE.le) hlow

theorem lt_of_zpow_lt {x y : ℤ} (h : (2 : ℚ) ^ x < 2 ^ y) : x < y :=
  (zpow_lt_zpow_iff_right₀ (by norm_num)).1 h

/-- The exponent that rounding aims at: that of the double, or the next smaller one just below a
power of two. -/
theorem target_of_inReach (hloc : Located (.ofMantissaAndAccuracy M a) (q / 2 ^ E))
    (hE : E ≤ Format.binary64.targetExponent (totalExponent M E)) (hd : IsDouble m e)
    (hq : InReach q m e) :
    Format.binary64.targetExponent (totalExponent M E) = e ∨
      (Format.binary64.targetExponent (totalExponent M E) = e - 1 ∧ m = 2 ^ 52 ∧ -1074 < e ∧
        q / 2 ^ e < 2 ^ 52) := by
  obtain ⟨hlt, hge⟩ := size_of_located hloc
  obtain ⟨⟨hlow, hhigh, -⟩, hnarrow⟩ := hq
  have he := two_zpow_pos e
  have hpow : ∀ k : ℕ, (2 : ℚ) ^ ((k : ℤ) + e) = 2 ^ k * 2 ^ e := by
    intro k
    rw [zpow_add₀ (by norm_num), zpow_natCast]
  have hsmall : M = 0 → totalExponent M E ≤ -1073 := by
    rintro rfl
    have htotal : totalExponent 0 E = 1 + E := rfl
    rw [targetExponent_eq, htotal] at hE
    rw [htotal]
    omega
  rw [targetExponent_eq] at hE ⊢
  generalize totalExponent M E = t at hlt hge hE hsmall
  -- The number is below the next power of two.
  have hupper : t ≤ 53 + e := by
    have hm : (m : ℚ) + 1 ≤ 2 ^ 53 := by
      have h : m + 1 ≤ 2 ^ 53 := hd.lt
      exact_mod_cast h
    have h53 : q < 2 ^ (((53 : ℕ) : ℤ) + e) := by
      rw [hpow, ← div_lt_iff₀ he]
      linarith
    by_cases hM : M = 0
    · have := hsmall hM
      have := hd.least
      omega
    · have := lt_of_zpow_lt (lt_of_le_of_lt (hge hM) h53)
      omega
  by_cases hleast : e = -1074
  · left
    omega
  have hnormal : 2 ^ 52 ≤ m := hd.normal.resolve_left hleast
  have hge' : -1074 < e := lt_of_le_of_ne hd.least (Ne.symm hleast)
  have hm : (2 : ℚ) ^ 52 ≤ m := by exact_mod_cast hnormal
  by_cases hbelow : q / 2 ^ e < 2 ^ 52
  · -- Just below a power of two.
    have hm' : (m : ℚ) < 2 ^ 52 + 1 := by linarith
    have hm' : m < 2 ^ 52 + 1 := by exact_mod_cast hm'
    have hmeq : m = 2 ^ 52 := by omega
    have h51 : (2 : ℚ) ^ (((51 : ℕ) : ℤ) + e) ≤ q := by
      rw [hpow, ← le_div_iff₀ he]
      linarith
    have h52 : q < 2 ^ (((52 : ℕ) : ℤ) + e) := by
      rw [hpow, ← div_lt_iff₀ he]
      exact hbelow
    have h1 := lt_of_zpow_lt (lt_of_le_of_lt h51 hlt)
    have hM : M ≠ 0 := by
      intro hM
      have := hsmall hM
      omega
    have h2 := lt_of_zpow_lt (lt_of_le_of_lt (hge hM) h52)
    right
    refine ⟨?_, hmeq, hge', hbelow⟩
    omega
  · have h52 : (2 : ℚ) ^ (((52 : ℕ) : ℤ) + e) ≤ q := by
      rw [hpow, ← le_div_iff₀ he]
      exact not_lt.1 hbelow
    have := lt_of_zpow_lt (lt_of_le_of_lt h52 hlt)
    left
    omega

theorem shiftToTargetExponent_eq (hE : E ≤ Format.binary64.targetExponent (totalExponent M E)) :
    shiftToTargetExponent Format.binary64 M E a =
      (ExtendedMantissa.ofMantissaAndAccuracy M a >>>
        (Format.binary64.targetExponent (totalExponent M E) - E).toNat,
        Format.binary64.targetExponent (totalExponent M E)) := by
  unfold shiftToTargetExponent shiftToExponent
  dsimp only
  congr 1
  omega

/-- A mantissa that has the right length stays as it is. -/
theorem shiftToTargetExponent_self (hd : IsDouble m e) :
    shiftToTargetExponent Format.binary64 m e .exact = (⟨m, false, false⟩, e) := by
  have hlog : m.log2 < 53 := log2_lt_of_lt (Nat.ne_of_gt hd.pos) hd.lt
  have htarget : Format.binary64.targetExponent (totalExponent m e) ≤ e := by
    have := hd.least
    rw [targetExponent_eq, totalExponent]
    omega
  have hzero : (Format.binary64.targetExponent (totalExponent m e) - e).toNat = 0 := by omega
  unfold shiftToTargetExponent shiftToExponent
  dsimp only
  rw [hzero]
  simp only [Int.natCast_zero, Int.add_zero]
  rfl

/-- A mantissa that is one bit too long is halved. -/
theorem shiftToTargetExponent_carry (he : -1074 < e) :
    shiftToTargetExponent Format.binary64 (2 ^ 53) (e - 1) .exact =
      (⟨2 ^ 52, false, false⟩, e) := by
  have htarget : Format.binary64.targetExponent (totalExponent (2 ^ 53) (e - 1)) = e := by
    rw [targetExponent_eq, totalExponent, Nat.log2_two_pow]
    omega
  have hone : (e - (e - 1)).toNat = 1 := by omega
  unfold shiftToTargetExponent shiftToExponent
  dsimp only
  rw [htarget, hone]
  congr 1
  omega

/-- **Rounding finds the double within whose reach a number is.** The mantissa is rounded once, at the place
that its size asks for; if this carries into one more bit, the mantissa is halved and the exponent is one
larger. -/
theorem roundWithAccuracy_eq (hloc : Located (.ofMantissaAndAccuracy M a) (q / 2 ^ E))
    (hE : E ≤ Format.binary64.targetExponent (totalExponent M E)) (hd : IsDouble m e)
    (hq : InReach q m e) :
    roundWithAccuracy Format.binary64 .positive M E a = .finite .positive m e hd.pos := by
  -- The mantissa is shifted to the exponent that its size asks for. That is the exponent of the double,
  -- or one less if rounding carries.
  have hfirst := shiftToTargetExponent_eq (a := a) hE
  have hshift : Located (ExtendedMantissa.ofMantissaAndAccuracy M a >>>
      (Format.binary64.targetExponent (totalExponent M E) - E).toNat)
      (q / 2 ^ Format.binary64.targetExponent (totalExponent M E)) := by
    have h := hloc.shift (Format.binary64.targetExponent (totalExponent M E) - E).toNat
    have hsum : E + ((Format.binary64.targetExponent (totalExponent M E) - E).toNat : ℤ) =
        Format.binary64.targetExponent (totalExponent M E) := by omega
    rwa [div_div, ← zpow_natCast, ← zpow_add₀ (by norm_num), hsum] at h
  have htarget := target_of_inReach hloc hE hd hq
  generalize Format.binary64.targetExponent (totalExponent M E) = T at hfirst hshift htarget
  unfold roundWithAccuracy
  rw [hfirst]
  dsimp only
  rcases htarget with rfl | ⟨rfl, rfl, he, hbelow⟩
  · rw [hshift.roundedMantissa hq.nearest, shiftToTargetExponent_self hd]
    exact dif_neg (Nat.ne_of_gt hd.pos)
  · -- Rounding first carries into one bit more.
    have hdouble : q / 2 ^ (e - 1) = q / 2 ^ e * 2 := by
      rw [zpow_sub₀ (by norm_num), zpow_one]
      have := two_zpow_pos e
      field_simp
    have hlow := hq.narrow rfl he
    have hcarry : Nearest (q / 2 ^ (e - 1)) (2 ^ 53) := by
      rw [hdouble]
      refine ⟨?_, ?_, fun hodd => absurd hodd (by decide)⟩
      · push_cast at hlow ⊢
        linarith
      · push_cast
        linarith
    rw [hshift.roundedMantissa hcarry, shiftToTargetExponent_carry he]
    exact dif_neg (Nat.ne_of_gt (by decide : 0 < 2 ^ 52))

end Exponents

/-! ## 3. Products and quotients -/

section Operations

variable {m m₁ m₂ : ℕ} {e e₁ e₂ : ℤ}

/-- The product of two numbers is the double in whose reach the exact product lies. No bit has been lost
before the one rounding, since the product of the mantissas is kept in full. -/
theorem mul_eq (h₁ : 0 < m₁) (h₂ : 0 < m₂) (hbits : 2 ^ 52 ≤ m₁ * m₂) (hd : IsDouble m e)
    (hq : InReach (m₁ * 2 ^ e₁ * (m₂ * 2 ^ e₂)) m e) :
    mul Format.binary64 (.finite .positive m₁ e₁ h₁) (.finite .positive m₂ e₂ h₂) =
      .finite .positive m e hd.pos := by
  have hlog : 52 ≤ (m₁ * m₂).log2 := by
    rw [Nat.le_log2 (Nat.ne_of_gt (Nat.mul_pos h₁ h₂))]
    exact hbits
  have hE : e₁ + e₂ ≤ Format.binary64.targetExponent (totalExponent (m₁ * m₂) (e₁ + e₂)) := by
    rw [targetExponent_eq, totalExponent]
    omega
  have hvalue : (m₁ : ℚ) * 2 ^ e₁ * (m₂ * 2 ^ e₂) / 2 ^ (e₁ + e₂) = (m₁ * m₂ : ℕ) := by
    have := two_zpow_pos e₁
    have := two_zpow_pos e₂
    rw [zpow_add₀ (by norm_num)]
    push_cast
    field_simp
  exact roundWithAccuracy_eq (a := .exact) hvalue hE hd hq

/-- Comparing a remainder with half of the divisor says where the quotient lies: at a whole number, below
the middle, in it, or above it. -/
theorem located_accuracyOfFraction {num den : ℕ} (h : num < den) (k : ℕ) :
    Located (.ofMantissaAndAccuracy k (accuracyOfFraction num den)) (k + num / den) := by
  have hden : (0 : ℚ) < den := by exact_mod_cast Nat.zero_lt_of_lt h
  have hlt : (num : ℚ) / den < 1 := by
    rw [div_lt_iff₀ hden, one_mul]
    exact_mod_cast h
  unfold accuracyOfFraction
  split
  next h0 =>
    show (k : ℚ) + num / den = k
    rw [h0]
    simp
  next h0 =>
    have hpos : (0 : ℚ) < num / den := by
      apply div_pos _ hden
      exact_mod_cast Nat.pos_of_ne_zero h0
    rcases Nat.lt_trichotomy (2 * num) den with hc | hc | hc
    · rw [Nat.compare_eq_lt.2 hc]
      have hhalf : (num : ℚ) / den < 1 / 2 := by
        rw [div_lt_div_iff₀ hden (by norm_num)]
        have : (2 * num : ℚ) < den := by exact_mod_cast hc
        linarith
      constructor <;> linarith
    · rw [Nat.compare_eq_eq.2 hc]
      have hhalf : (num : ℚ) / den = 1 / 2 := by
        rw [div_eq_div_iff (ne_of_gt hden) (by norm_num)]
        have : (2 * num : ℚ) = den := by exact_mod_cast hc
        linarith
      show (k : ℚ) + num / den = k + 1 / 2
      rw [hhalf]
    · rw [Nat.compare_eq_gt.2 hc]
      have hhalf : 1 / 2 < (num : ℚ) / den := by
        rw [div_lt_div_iff₀ (by norm_num) hden]
        have : (den : ℚ) < 2 * num := by exact_mod_cast hc
        linarith
      constructor <;> linarith

/-- How many bits a quotient has at least, in terms of those of its operands. -/
theorem le_log2_quotient (h₁ : 0 < m₁) (h₂ : 0 < m₂) {s k : ℕ}
    (hs : k + 1 + m₂.log2 ≤ s + m₁.log2) : k ≤ (m₁ * 2 ^ s / m₂).log2 := by
  have hlow : 2 ^ m₁.log2 ≤ m₁ := Nat.log2_self_le (Nat.ne_of_gt h₁)
  have hhigh : m₂ < 2 ^ (m₂.log2 + 1) := Nat.lt_log2_self
  have hle : 2 ^ k ≤ m₁ * 2 ^ s / m₂ := by
    rw [Nat.le_div_iff_mul_le h₂]
    calc 2 ^ k * m₂ ≤ 2 ^ k * 2 ^ (m₂.log2 + 1) := Nat.mul_le_mul_left _ hhigh.le
      _ = 2 ^ (k + 1 + m₂.log2) := by rw [← Nat.pow_add]; congr 1; omega
      _ ≤ 2 ^ (m₁.log2 + s) := Nat.pow_le_pow_right (by decide) (by omega)
      _ = 2 ^ m₁.log2 * 2 ^ s := Nat.pow_add _ _ _
      _ ≤ m₁ * 2 ^ s := Nat.mul_le_mul_right _ hlow
  have hpos : 0 < 2 ^ k := by positivity
  rw [Nat.le_log2 (by omega)]
  exact hle

/-- The quotient of two numbers is the double in whose reach the exact quotient lies. The dividend is
shifted first, so far that the whole part of the quotient has all the bits that a double keeps. The
remainder only has to say on which side of the middle the rest is. -/
theorem div_eq (h₁ : 0 < m₁) (h₂ : 0 < m₂) (hd : IsDouble m e)
    (hq : InReach (m₁ * 2 ^ e₁ / (m₂ * 2 ^ e₂)) m e) :
    div Format.binary64 (.finite .positive m₁ e₁ h₁) (.finite .positive m₂ e₂ h₂) =
      .finite .positive m e hd.pos := by
  obtain ⟨E, hEdef⟩ : ∃ E, E = min (e₁ - e₂)
    (Format.binary64.targetExponent (totalExponent m₁ e₁ - totalExponent m₂ e₂)) := ⟨_, rfl⟩
  obtain ⟨s, hs⟩ : ∃ s, s = (e₁ - e₂ - E).toNat := ⟨_, rfl⟩
  have hsE : (s : ℤ) = e₁ - e₂ - E := by omega
  -- `E` is the exponent of the quotient and `s` how far the dividend is shifted for it.
  have hcore : divCore Format.binary64 m₁ e₁ m₂ e₂ =
      (m₁ * 2 ^ s / m₂, E, accuracyOfFraction (m₁ * 2 ^ s % m₂) m₂) := by
    unfold divCore
    dsimp only
    rw [← hEdef, ← hs, Nat.shiftLeft_eq]
  have hmod : m₁ * 2 ^ s % m₂ < m₂ := Nat.mod_lt _ h₂
  have hvalue : (m₁ : ℚ) * 2 ^ e₁ / (m₂ * 2 ^ e₂) / 2 ^ E =
      (m₁ * 2 ^ s / m₂ : ℕ) + (m₁ * 2 ^ s % m₂ : ℕ) / (m₂ : ℚ) := by
    have hdiv : m₂ * (m₁ * 2 ^ s / m₂) + m₁ * 2 ^ s % m₂ = m₁ * 2 ^ s := Nat.div_add_mod _ _
    have hdiv : (m₂ : ℚ) * (m₁ * 2 ^ s / m₂ : ℕ) + (m₁ * 2 ^ s % m₂ : ℕ) = m₁ * 2 ^ s := by
      exact_mod_cast hdiv
    have hm₂ : (0 : ℚ) < m₂ := by exact_mod_cast h₂
    have he₁ : (2 : ℚ) ^ e₁ = 2 ^ s * 2 ^ e₂ * 2 ^ E := by
      rw [← zpow_natCast, ← zpow_add₀ (by norm_num), ← zpow_add₀ (by norm_num)]
      congr 1
      omega
    have := two_zpow_pos e₂
    have := two_zpow_pos E
    rw [he₁]
    field_simp
    linarith
  have hlog : E ≤ Format.binary64.targetExponent (totalExponent (m₁ * 2 ^ s / m₂) E) := by
    rw [targetExponent_eq, totalExponent] at hEdef ⊢
    by_cases hleast : E ≤ -1074
    · omega
    · -- The dividend is shifted far enough for a quotient of 53 bits.
      have hbits := le_log2_quotient h₁ h₂ (s := s) (k := 52) (by rw [totalExponent] at hEdef; omega)
      omega
  have hloc := located_accuracyOfFraction hmod (m₁ * 2 ^ s / m₂)
  rw [← hvalue] at hloc
  have hround := roundWithAccuracy_eq hloc hlog hd hq
  show (match divCore Format.binary64 m₁ e₁ m₂ e₂ with
    | (k, E, a) => roundWithAccuracy Format.binary64 .positive k E a) = _
  rw [hcore]
  exact hround

end Operations

end BlockConfig.Decimal
