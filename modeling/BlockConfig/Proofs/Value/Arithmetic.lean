import BlockConfig.Value.Arithmetic
import Mathlib.Algebra.Group.Int.Defs

/-!
Integer arithmetic.

Sums, differences, products and negatives of integers are exact or an error (`Exactly`). A quotient is an
integer exactly if nothing remains, and multiplied with the divisor it then gives the dividend (`Divided`).
There is one quotient of 64-bit integers that is no 64-bit integer, that of the least one and minus one;
a quotient that leaves nothing and does not fit can only be this one (`fits_of_product`). Wherever numbers
are asked for, a text that spells an integer is as good as the integer (`Spells`).
-/

set_option autoImplicit false

namespace BlockConfig.Value

/-! ## 1. Results that fit -/

/-- An integer fits into 64 bits. -/
def Fits (i : Int) : Prop :=
  -2 ^ 63 ≤ i ∧ i < 2 ^ 63

instance (i : Int) : Decidable (Fits i) :=
  inferInstanceAs (Decidable (_ ∧ _))

/-- A result is an integer exactly, or an error that names the operator if the integer does not fit. -/
structure Exactly (result : Except EvalError Value) (symbol : String) (i : Int) : Prop where
  exact : Fits i → ∃ r : Int64, r.toInt = i ∧ result = .ok (int r)
  overflow : ¬ Fits i → result = .error (.type (.overflow symbol))

section Checked

variable {i : Int} {symbol : String}

/-- The check of the program is that of the bounds. -/
theorem fits_iff : Decimal.fitsInt64 i = true ↔ Fits i := by
  have hmin : Int64.minValue.toInt = -2 ^ 63 := rfl
  have hmax : Int64.maxValue.toInt = 2 ^ 63 - 1 := rfl
  rw [Decimal.fitsInt64, Bool.and_eq_true, decide_eq_true_eq, decide_eq_true_eq, hmin, hmax, Fits]
  omega

theorem fits_toInt (a : Int64) : Fits a.toInt :=
  ⟨a.le_toInt, a.toInt_lt⟩

theorem toInt_ofInt (h : Fits i) : (Int64.ofInt i).toInt = i :=
  Int64.toInt_ofInt_of_le h.1 h.2

theorem checked_of_fits (h : Fits i) : checked symbol i = .ok (int (Int64.ofInt i)) :=
  if_pos (fits_iff.2 h)

/-- A result that fits is given exactly; for another one the error names the operator. -/
theorem exactly_checked (symbol : String) (i : Int) : Exactly (checked symbol i) symbol i := by
  constructor
  · exact fun h => ⟨Int64.ofInt i, toInt_ofInt h, checked_of_fits h⟩
  · exact fun h => if_neg fun h' => h (fits_iff.1 h')

end Checked

/-! ## 2. Division -/

/-- The two integers whose quotient does not fit. -/
def AtCorner (a b : Int64) : Prop :=
  a = Int64.minValue ∧ b = -1

instance (a b : Int64) : Decidable (AtCorner a b) :=
  inferInstanceAs (Decidable (_ ∧ _))

/-- How two integers are divided: the quotient and the remainder, and what they have to do with each
other. -/
structure Divided (a b : Int64) : Prop where
  quotient_zero : binary .div (int a) (int b) = .error .divisionByZero ↔ b = 0
  remainder_zero : binary .mod (int a) (int b) = .error .divisionByZero ↔ b = 0
  quotient_corner : AtCorner a b → binary .div (int a) (int b) = .error (.type (.overflow "/"))
  remainder_corner : AtCorner a b → binary .mod (int a) (int b) = .error (.type (.overflow "%"))
  remainder : b ≠ 0 → ¬ AtCorner a b →
    ∃ r : Int64, r.toInt = Int.tmod a.toInt b.toInt ∧ binary .mod (int a) (int b) = .ok (int r)
  quotient : b ≠ 0 → ¬ AtCorner a b →
    ((∃ q, binary .div (int a) (int b) = .ok (int q)) ↔ Int.tmod a.toInt b.toInt = 0)
  fraction : b ≠ 0 → Int.tmod a.toInt b.toInt ≠ 0 →
    binary .div (int a) (int b) = .ok (float (Decimal.ofInt64 a / Decimal.ofInt64 b))
  product : ∀ q, binary .div (int a) (int b) = .ok (int q) →
    q.toInt * b.toInt = a.toInt ∧ binary .mul (int q) (int b) = .ok (int a)

section Division

variable {a b : Int64}

theorem toInt_eq_zero_iff : b.toInt = 0 ↔ b = 0 :=
  Int64.toInt_inj (y := 0)

/-- The corner is the one quotient of two integers that does not fit. -/
theorem atCorner_iff : AtCorner a b ↔ a.toInt = -2 ^ 63 ∧ b.toInt = -1 :=
  and_congr (Int64.toInt_inj (y := Int64.minValue)).symm (Int64.toInt_inj (y := -1)).symm

/-- A remainder is not larger than the divisor, so it always fits. -/
theorem fits_tmod (hb : b ≠ 0) : Fits (Int.tmod a.toInt b.toInt) := by
  have hlow := b.le_toInt
  have hhigh := b.toInt_lt
  have hb : b.toInt ≠ 0 := fun h => hb (toInt_eq_zero_iff.1 h)
  have hsize : (Int.tmod a.toInt b.toInt).natAbs = a.toInt.natAbs % b.toInt.natAbs := Int.natAbs_tmod _ _
  have hless : a.toInt.natAbs % b.toInt.natAbs < b.toInt.natAbs := Nat.mod_lt _ (by omega)
  rw [Fits]
  omega

/-- A quotient that leaves nothing fits, unless it is the one of the corner. -/
theorem fits_of_product (hb : b ≠ 0) (hcorner : ¬ AtCorner a b) {q : Int} (h : b.toInt * q = a.toInt) :
    Fits q := by
  have hlow := a.le_toInt
  have hhigh := a.toInt_lt
  have hsize : q.natAbs ≤ a.toInt.natAbs := by
    rw [← h, Int.natAbs_mul]
    exact Nat.le_mul_of_pos_left _ (Int.natAbs_pos.2 fun h => hb (toInt_eq_zero_iff.1 h))
  refine ⟨by omega, ?_⟩
  by_cases hsmall : q < 2 ^ 63
  · exact hsmall
  · -- The quotient is as large as the dividend, and so the divisor is minus one.
    have hq : q = 2 ^ 63 := by omega
    rw [hq] at h
    exact absurd (atCorner_iff.2 (by omega)) hcorner

/-- Away from zero and from the corner a quotient is an integer if it is exact, and a double otherwise. -/
theorem binary_div (hb : b ≠ 0) (hcorner : ¬ AtCorner a b) :
    binary .div (int a) (int b) =
      if Int.tmod a.toInt b.toInt = 0 then .ok (int (Int64.ofInt (Int.tdiv a.toInt b.toInt)))
      else .ok (float (Decimal.ofInt64 a / Decimal.ofInt64 b)) := by
  show (if (b == 0) = true then _ else if AtCorner a b then _ else _) = _
  rw [if_neg (by simpa using hb), if_neg hcorner]

/-- A remainder is exact under the same conditions. -/
theorem binary_mod (hb : b ≠ 0) (hcorner : ¬ AtCorner a b) :
    binary .mod (int a) (int b) = .ok (int (Int64.ofInt (Int.tmod a.toInt b.toInt))) := by
  show (if b = 0 then _ else if AtCorner a b then _ else _) = _
  rw [if_neg hb, if_neg hcorner]
  rfl

/-- At the corner the division overflows. -/
theorem binary_div_corner (h : AtCorner a b) :
    binary .div (int a) (int b) = .error (.type (.overflow "/")) := by
  obtain ⟨rfl, rfl⟩ := h
  rfl

/-- At the corner so does the remainder, although it would be zero. -/
theorem binary_mod_corner (h : AtCorner a b) :
    binary .mod (int a) (int b) = .error (.type (.overflow "%")) := by
  obtain ⟨rfl, rfl⟩ := h
  rfl

/-- The remainder at the corner is zero, which is why the corner is nothing that the exact result would
show. -/
theorem tmod_corner (h : AtCorner a b) : Int.tmod a.toInt b.toInt = 0 := by
  obtain ⟨rfl, rfl⟩ := h
  rfl

/-- An integer quotient is exact. -/
theorem quotient_of_div {q : Int64} (h : binary .div (int a) (int b) = .ok (int q)) :
    Int.tmod a.toInt b.toInt = 0 ∧ q.toInt * b.toInt = a.toInt := by
  by_cases hb : b = 0
  · rw [hb] at h
    cases h
  by_cases hcorner : AtCorner a b
  · rw [binary_div_corner hcorner] at h
    cases h
  rw [binary_div hb hcorner] at h
  split at h
  next hmod =>
    cases h
    have hproduct := Int.mul_tdiv_add_tmod a.toInt b.toInt
    rw [hmod, Int.add_zero] at hproduct
    rw [toInt_ofInt (fits_of_product hb hcorner hproduct), Int.mul_comm]
    exact ⟨hmod, hproduct⟩
  next => cases h

/-- The quotient and the remainder of all pairs of integers. The cases are the divisor zero, the corner and
all others, and within these whether the division is exact. -/
theorem divided (a b : Int64) : Divided a b where
  quotient_zero := by
    by_cases hb : b = 0
    · rw [hb]
      exact iff_of_true rfl rfl
    refine iff_of_false (fun h => ?_) hb
    by_cases hcorner : AtCorner a b
    · rw [binary_div_corner hcorner] at h
      cases h
    · rw [binary_div hb hcorner] at h
      split at h <;> cases h
  remainder_zero := by
    by_cases hb : b = 0
    · rw [hb]
      exact iff_of_true rfl rfl
    refine iff_of_false (fun h => ?_) hb
    by_cases hcorner : AtCorner a b
    · rw [binary_mod_corner hcorner] at h
      cases h
    · rw [binary_mod hb hcorner] at h
      cases h
  quotient_corner := binary_div_corner
  remainder_corner := binary_mod_corner
  remainder hb hcorner := ⟨_, toInt_ofInt (fits_tmod hb), binary_mod hb hcorner⟩
  quotient hb hcorner := by
    constructor
    · rintro ⟨q, h⟩
      exact (quotient_of_div h).1
    · intro hmod
      rw [binary_div hb hcorner, if_pos hmod]
      exact ⟨_, rfl⟩
  -- A quotient with a fraction is not at the corner, where the remainder is zero.
  fraction hb hmod := by
    have hcorner : ¬ AtCorner a b := fun h => hmod (tmod_corner h)
    rw [binary_div hb hcorner, if_neg hmod]
  product q h := by
    have hproduct := (quotient_of_div h).2
    refine ⟨hproduct, ?_⟩
    show checked "*" (q.toInt * b.toInt) = _
    rw [hproduct, checked_of_fits (fits_toInt a), Int64.ofInt_toInt]

end Division

/-! ## 3. Texts for integers -/

/-- A value is an integer, or a text that spells it, blanks around it aside. -/
inductive Spells (i : Int64) : Value → Prop
  | int : Spells i (int i)
  | str {s : String} (read : Decimal.readInt64? (Text.trimChars s.toList) = some i) : Spells i (str s)

/-- The operators that ask for numbers and are not joining. -/
def Calculates (op : BinaryOp) : Prop :=
  op = .sub ∨ op = .mul ∨ op = .div ∨ op = .mod

section Spelling

variable {a b : Int64} {l r : Value} {op : BinaryOp}

/-- A text that spells an integer is taken for it. -/
theorem Spells.numeric (h : Spells a l) (op : BinaryOp) : numeric op l = .ok (.int a) := by
  cases h with
  | int => rfl
  | str read =>
    unfold Value.numeric toNumber? Number.ofText?
    dsimp only
    rw [read]

/-- An operator that calculates sees of its operands only the numbers they spell. -/
theorem Calculates.congr (h : Calculates op) {l' r' : Value}
    (left : ∀ op, numeric op l = numeric op l') (right : ∀ op, numeric op r = numeric op r') :
    binary op l r = binary op l' r' := by
  rcases h with rfl | rfl | rfl | rfl
  · simp only [binary, numericOp, left, right]
  · simp only [binary, numericOp, left, right]
  · simp only [binary, divide, left, right]
  · simp only [binary, remainder, left, right]

/-- An operator that calculates gives the same for integers and for texts that spell them. -/
theorem Calculates.of_spells (h : Calculates op) (left : Spells a l) (right : Spells b r) :
    binary op l r = binary op (int a) (int b) := by
  apply h.congr
  · exact fun op => (left.numeric op).trans (Spells.int.numeric op).symm
  · exact fun op => (right.numeric op).trans (Spells.int.numeric op).symm

/-- **Integer arithmetic is exact or an error.** Sums, differences, products and negatives are the exact
integers where these fit into 64 bits and type errors elsewhere; quotients and remainders are those of
truncated division, with an error for a divisor of zero and for the one quotient that does not fit; and
all but `+` take a text that spells an integer for the integer. -/
theorem integer_arithmetic (a b : Int64) :
    Exactly (binary .add (int a) (int b)) "+" (a.toInt + b.toInt) ∧
      Exactly (binary .sub (int a) (int b)) "-" (a.toInt - b.toInt) ∧
      Exactly (binary .mul (int a) (int b)) "*" (a.toInt * b.toInt) ∧
      Divided a b ∧
      Exactly (unary .neg (int a)) "-" (-a.toInt) ∧
      ∀ op, Calculates op → ∀ l r, Spells a l → Spells b r →
        binary op l r = binary op (int a) (int b) :=
  ⟨exactly_checked _ _, exactly_checked _ _, exactly_checked _ _, divided a b, exactly_checked _ _,
    fun _ h _ _ left right => h.of_spells left right⟩

/-- The least integer, as a text, by minus one; and what remains of minus seven by a text that spells
two. -/
theorem integer_arithmetic_corner :
    binary .div (str " -9223372036854775808 ") (int (-1)) = .error (.type (.overflow "/")) ∧
      ∃ r : Int64, r.toInt = -1 ∧ binary .mod (int (-7)) (str "2") = .ok (int r) := by
  constructor
  · have h := integer_arithmetic Int64.minValue (-1)
    rw [h.2.2.2.2.2 .div (.inr (.inr (.inl rfl))) _ _ (.str (by decide +kernel)) .int]
    exact h.2.2.2.1.quotient_corner ⟨rfl, rfl⟩
  · have h := integer_arithmetic (-7) 2
    rw [h.2.2.2.2.2 .mod (.inr (.inr (.inr rfl))) _ _ .int (.str (by decide +kernel))]
    exact h.2.2.2.1.remainder (by decide) (by decide)

end Spelling

end BlockConfig.Value
