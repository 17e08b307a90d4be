import BlockConfig.Decimal.Binary
import BlockConfig.Proofs.Decimal.Rounding

/-!
The bits of doubles.

A positive double is a mantissa and an exponent (`IsDouble`). This file relates these to its bits: they
are packed into the bits (`toNat_toBits_ofDouble`), and both ways of taking a double apart, `decode` and
the unpacking that arithmetic starts with, give them back (`decode_ofDouble`, `unpack_ofDouble`). Every
positive finite double is one of these (`eq_ofDouble`).
-/

set_option autoImplicit false

namespace BlockConfig.Decimal

open Float.Model Float.Model.UnpackedFloat

/-! ## 1. The parts of the bits -/

theorem unpackMantissa_toNat (b : BitVec 64) :
    (@unpackMantissa Format.binary64 b).toNat = b.toNat % 2 ^ 52 := by
  unfold unpackMantissa
  rw [BitVec.toNat_cast, BitVec.extractLsb_toNat]
  rfl

theorem unpackExponent_toNat (b : BitVec 64) :
    (@unpackExponent Format.binary64 b).toNat = b.toNat / 2 ^ 52 % 2048 := by
  unfold unpackExponent
  rw [BitVec.toNat_cast, BitVec.extractLsb_toNat, Nat.shiftRight_eq_div_pow]
  rfl

theorem unpackSign_toNat (b : BitVec 64) :
    (@unpackSign Format.binary64 b).toNat = b.toNat / 2 ^ 63 := by
  have hlt := b.isLt
  unfold unpackSign
  rw [BitVec.toNat_cast, BitVec.extractLsb_toNat, Nat.shiftRight_eq_div_pow]
  apply Nat.mod_eq_of_lt
  show b.toNat / 2 ^ 63 < 2
  omega

theorem packComponents_toNat (e : BitVec 11) (m : BitVec 52) :
    (packComponents Format.binary64 .positive e m).toNat = e.toNat * 2 ^ 52 + m.toNat := by
  unfold packComponents Sign.toBitVec
  rw [BitVec.toNat_append, BitVec.toNat_append, ← Nat.shiftLeft_add_eq_or_of_lt m.isLt,
    ← Nat.shiftLeft_add_eq_or_of_lt e.isLt, Nat.shiftLeft_eq]
  simp

/-! ## 2. The bits of a double -/

/-- The bits of a positive double: from the second power of two on, the exponent takes the place of the
highest bit of the mantissa. -/
def bitsOf (m : ℕ) (e : ℤ) : ℕ :=
  if m < 2 ^ 52 then m else (e + 1075).toNat * 2 ^ 52 + (m - 2 ^ 52)

/-- The double with a mantissa and an exponent. -/
def ofDouble {m : ℕ} {e : ℤ} (hd : IsDouble m e) : Float :=
  .ofModel (.pack (.finite .positive m e hd.pos))

theorem eq_of_toBits {x y : Float} (h : x.toBits.toNat = y.toBits.toNat) : x = y := by
  obtain ⟨⟨bx, vx⟩⟩ := x
  obtain ⟨⟨by', vy⟩⟩ := y
  have hbits : bx = by' := UInt64.toNat_inj.1 h
  subst hbits
  rfl

section Double

variable {m : ℕ} {e : ℤ}

theorem IsDouble.log2 (hd : IsDouble m e) : m.log2 + 1 = 53 ↔ 2 ^ 52 ≤ m := by
  have hlt := log2_lt_of_lt (Nat.ne_of_gt hd.pos) hd.lt
  rw [← Nat.le_log2 (Nat.ne_of_gt hd.pos)]
  omega

/-- The bits of a double are its mantissa and its exponent side by side. The leading bit of the mantissa is
not written, and a double without one has the smallest exponent. -/
theorem toNat_toBits_ofDouble (hd : IsDouble m e) (he : e ≤ 971) :
    (ofDouble hd).toBits.toNat = bitsOf m e := by
  have hleast := hd.least
  have hlt := hd.lt
  have hbiased : (e + (Format.binary64.exponentBias : ℤ) +
      (Format.binary64.mantissaBitsWithoutImplicit : ℤ)).toNat = (e + 1075).toNat := by
    show (e + 1023 + 52).toNat = (e + 1075).toNat
    congr 1
    ring
  show (UnpackedFloat.pack Format.binary64 (.finite .positive m e hd.pos)).toNat = bitsOf m e
  unfold UnpackedFloat.pack bitsOf
  dsimp only
  rw [hbiased, if_neg (by show ¬ 2048 ≤ (e + 1075).toNat + 1; omega)]
  by_cases hsmall : m < 2 ^ 52
  · have hlog : ¬ m.log2 + 1 = Format.binary64.mantissaBits := by
      show ¬ m.log2 + 1 = 53
      rw [hd.log2]
      omega
    rw [if_neg hlog, if_pos hsmall, packComponents_toNat, BitVec.toNat_ofNat, BitVec.toNat_ofNat,
      Nat.mod_eq_of_lt hsmall]
    simp
  · have hlog : m.log2 + 1 = Format.binary64.mantissaBits := by
      show m.log2 + 1 = 53
      rw [hd.log2]
      omega
    rw [if_pos hlog, if_neg hsmall, packComponents_toNat, BitVec.toNat_ofNat, BitVec.toNat_ofNat,
      Nat.mod_eq_of_lt (by show (e + 1075).toNat < 2048; omega)]
    omega

/-- The bits of a double say that it is positive, and what its parts are. -/
theorem bitsOf_parts (hd : IsDouble m e) (he : e ≤ 971) :
    bitsOf m e / 2 ^ 63 = 0 ∧
      (m < 2 ^ 52 → bitsOf m e / 2 ^ 52 % 2048 = 0 ∧ bitsOf m e % 2 ^ 52 = m ∧ e = -1074) ∧
      (2 ^ 52 ≤ m → ((bitsOf m e / 2 ^ 52 % 2048 : ℕ) : ℤ) = e + 1075 ∧
        bitsOf m e % 2 ^ 52 = m - 2 ^ 52) := by
  have hleast := hd.least
  have hlt := hd.lt
  have hnormal := hd.normal
  unfold bitsOf
  by_cases hsmall : m < 2 ^ 52
  · rw [if_pos hsmall]
    refine ⟨by omega, fun _ => ⟨by omega, by omega, by omega⟩, fun _ => by omega⟩
  · rw [if_neg hsmall]
    refine ⟨by omega, fun _ => by omega, fun _ => ⟨by omega, by omega⟩⟩

theorem one_append_toNat (b : BitVec 52) : (1#1 ++ b).toNat = 2 ^ 52 + b.toNat := by
  rw [BitVec.toNat_append, ← Nat.shiftLeft_add_eq_or_of_lt b.isLt, Nat.shiftLeft_eq]
  simp

/-- Unpacking undoes packing. The exponent shows whether the leading bit has to be put back: with the
smallest one the mantissa is as it was written, and with any other it is that and the leading bit. -/
theorem unpack_ofDouble (hd : IsDouble m e) (he : e ≤ 971) :
    (ofDouble hd).toModel.unpack = .finite .positive m e hd.pos := by
  have hbits : (ofDouble hd).toBits.toBitVec.toNat = bitsOf m e := toNat_toBits_ofDouble hd he
  obtain ⟨hsign, hsubnormal, hnormal⟩ := bitsOf_parts hd he
  have hleast := hd.least
  have hpos := hd.pos
  show UnpackedFloat.unpack Format.binary64 (ofDouble hd).toBits.toBitVec = _
  generalize (ofDouble hd).toBits.toBitVec = b at hbits
  have hE := unpackExponent_toNat b
  have hM := unpackMantissa_toNat b
  have hS : Sign.ofBitVec (@unpackSign Format.binary64 b) = .positive := by
    unfold Sign.ofBitVec
    rw [if_pos]
    apply BitVec.eq_of_toNat_eq
    rw [unpackSign_toNat, hbits, hsign]
    rfl
  rw [hbits] at hE hM
  have hbias : ((Format.binary64.exponentBias : ℤ) +
      (Format.binary64.mantissaBitsWithoutImplicit : ℤ)) = 1075 := rfl
  -- The exponent is not all ones, which would be an infinity.
  have hfinite : ¬ @unpackExponent Format.binary64 b = -1#_ := by
    intro h
    have h : (@unpackExponent Format.binary64 b).toNat = 2047 := congrArg BitVec.toNat h
    by_cases hsmall : m < 2 ^ 52
    · have := (hsubnormal hsmall).1
      omega
    · have := (hnormal (not_lt.1 hsmall)).1
      omega
  unfold UnpackedFloat.unpack
  dsimp only
  rw [hS, hbias, if_neg hfinite]
  by_cases hsmall : m < 2 ^ 52
  -- The smallest exponent: the mantissa has no leading bit to put back, and is not zero.
  · obtain ⟨hexp, hman, rfl⟩ := hsubnormal hsmall
    rw [hexp] at hE
    rw [hman] at hM
    have hzero : @unpackExponent Format.binary64 b = 0#_ := BitVec.eq_of_toNat_eq hE
    have hne : ¬ @unpackMantissa Format.binary64 b = 0#_ := by
      intro h
      have h : (@unpackMantissa Format.binary64 b).toNat = 0 := congrArg BitVec.toNat h
      omega
    rw [if_pos hzero, dif_neg hne]
    congr 1
    omega
  -- Any other exponent: the leading bit was left out.
  · obtain ⟨hexp, hman⟩ := hnormal (not_lt.1 hsmall)
    have hne : ¬ @unpackExponent Format.binary64 b = 0#_ := by
      intro h
      have h : (@unpackExponent Format.binary64 b).toNat = 0 := congrArg BitVec.toNat h
      omega
    rw [if_neg hne]
    congr 1
    · rw [one_append_toNat, hM, hman]
      omega
    · omega

/-! ## 3. Doubles taken apart -/

/-- What a double counts is read off its bits as its mantissa and its exponent, without sign. -/
theorem decode_ofDouble (hd : IsDouble m e) (he : e ≤ 971) :
    decode (ofDouble hd) = some ⟨false, m, e, decide (m = 2 ^ 52 ∧ -1074 < e)⟩ := by
  have hbits := toNat_toBits_ofDouble hd he
  obtain ⟨hsign, hsubnormal, hnormal⟩ := bitsOf_parts hd he
  have hleast := hd.least
  unfold decode
  rw [hbits]
  dsimp only [Nat.pow_eq]
  by_cases hsmall : m < 2 ^ 52
  · obtain ⟨hexp, hman, rfl⟩ := hsubnormal hsmall
    rw [if_neg (by omega), if_pos hexp]
    simp only [Option.some.injEq, Binary.mk.injEq]
    refine ⟨decide_eq_false (by omega), hman, trivial, (decide_eq_false (by omega)).symm⟩
  · obtain ⟨hexp, hman⟩ := hnormal (not_lt.1 hsmall)
    rw [if_neg (by omega), if_neg (by omega)]
    simp only [Option.some.injEq, Binary.mk.injEq]
    refine ⟨decide_eq_false (by omega), by omega, by omega, decide_eq_decide.2 (by omega)⟩

end Double

/-- **Every positive finite double is packed from its parts.** Its bits are put together again from mantissa
and exponent, with or without a leading bit that is left out. -/
theorem eq_ofDouble {x : Float} {b : Binary} (h : decode x = some b) (hsign : b.negative = false)
    (hpos : 0 < b.significand) :
    ∃ hd : IsDouble b.significand b.exponent, b.exponent ≤ 971 ∧ x = ofDouble hd := by
  have hlt := x.toBits.toNat_lt
  unfold decode at h
  dsimp only [Nat.pow_eq] at h
  split at h
  · cases h
  split at h
  next hfinite hzero =>
    cases h
    have hsign := of_decide_eq_false hsign
    have hd : IsDouble (x.toBits.toNat % 2 ^ 52) (-1074) :=
      ⟨hpos, by omega, le_rfl, .inl rfl⟩
    refine ⟨hd, by norm_num, ?_⟩
    -- A double is known by its bits: here with the smallest exponent, and below with another.
    apply eq_of_toBits
    rw [toNat_toBits_ofDouble hd (by norm_num)]
    unfold bitsOf
    rw [if_pos (by omega)]
    omega
  next hfinite hzero =>
    cases h
    have hsign := of_decide_eq_false hsign
    have hd : IsDouble (x.toBits.toNat % 2 ^ 52 + 2 ^ 52)
        ((x.toBits.toNat / 2 ^ 52 % 2048 : ℕ) - 1075) :=
      ⟨hpos, by omega, by omega, .inr (by omega)⟩
    have he : ((x.toBits.toNat / 2 ^ 52 % 2048 : ℕ) : ℤ) - 1075 ≤ 971 := by omega
    refine ⟨hd, he, ?_⟩
    apply eq_of_toBits
    rw [toNat_toBits_ofDouble hd he]
    unfold bitsOf
    rw [if_neg (by omega)]
    omega

end BlockConfig.Decimal
