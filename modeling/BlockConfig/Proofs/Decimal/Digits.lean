import BlockConfig.Decimal.Reader
import BlockConfig.Decimal.Writer
import BlockConfig.Node.Parser

/-!
Digits that are written and read.

The digits of a natural number spell that number, and an integer that is not negative is written as
the digits that are read as this integer.
-/

set_option autoImplicit false

namespace BlockConfig.Decimal

theorem digitsValue_toDigits (n : Nat) : digitsValue (Nat.toDigits 10 n) = n :=
  Nat.ofDigitChars_ten_toDigits

theorem isDigit_of_mem_toDigits {n : Nat} {c : Char} (h : c ∈ Nat.toDigits 10 n) :
    c.isDigit = true :=
  Nat.isDigit_of_mem_toDigits (by decide) (by decide) h

theorem isDigits_toDigits (n : Nat) : isDigits (Nat.toDigits 10 n) = true := by
  rw [isDigits, Bool.and_eq_true, Bool.not_eq_true', List.isEmpty_eq_false_iff, List.all_eq_true]
  exact ⟨Nat.toDigits_ne_nil, fun c hc => isDigit_of_mem_toDigits hc⟩

theorem readSign_of_isDigit {cs : List Char} (h : ∀ c ∈ cs.head?, c.isDigit = true) :
    readSign cs = (false, cs) := by
  unfold readSign
  split
  next => exact absurd (h '-' rfl) (by decide)
  next => exact absurd (h '+' rfl) (by decide)
  next => rfl

theorem readInt?_toDigits (n : Nat) : readInt? (Nat.toDigits 10 n) = some (n : Int) := by
  have hs : readSign (Nat.toDigits 10 n) = (false, Nat.toDigits 10 n) :=
    readSign_of_isDigit fun c hc => isDigit_of_mem_toDigits (List.mem_of_mem_head? hc)
  rw [readInt?, hs]
  dsimp only
  rw [if_pos (isDigits_toDigits n), digitsValue_toDigits]
  rfl

theorem toList_intText {i : Int64} (h : 0 ≤ i.toInt) :
    (intText i).toList = Nat.toDigits 10 i.toInt.toNat := by
  have hi : i.toInt = (i.toInt.toNat : Int) := (Int.toNat_of_nonneg h).symm
  have ht : intText i = Nat.repr i.toInt.toNat := by
    rw [intText, hi]
    rfl
  rw [ht, Nat.toList_repr]

/-- **Integers are read back.** Their text has digits only, so it is not taken for a float, and its digits
count what they were made from, which is in range. -/
theorem numberLiteral?_intText {i : Int64} (h : 0 ≤ i.toInt) :
    Rule.numberLiteral? (intText i) = some (.int i) := by
  have hany : ((intText i).toList.any fun c => c = '.' ∨ c = 'e' ∨ c = 'E') = false := by
    rw [List.any_eq_false]
    intro c hc
    rw [toList_intText h] at hc
    have hd := isDigit_of_mem_toDigits hc
    rw [decide_eq_true_eq]
    rintro (rfl | rfl | rfl) <;> exact absurd hd (by decide)
  have hread : readInt64? (intText i).toList = some i := by
    have hfits : fitsInt64 i.toInt = true := by
      rw [fitsInt64, Bool.and_eq_true, decide_eq_true_eq, decide_eq_true_eq]
      exact ⟨Int64.minValue_le_toInt i, Int64.toInt_le i⟩
    rw [toList_intText h, readInt64?, readInt?_toDigits, Int.toNat_of_nonneg h]
    dsimp only
    rw [if_pos hfits, Int64.ofInt_toInt]
  rw [Rule.numberLiteral?, hany, hread]
  rfl

end BlockConfig.Decimal
