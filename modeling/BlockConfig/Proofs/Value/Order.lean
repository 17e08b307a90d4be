import BlockConfig.Proofs.Decimal.WholeNumbers
import BlockConfig.Value.Arithmetic

/-!
The order operators.

Two operands that are or spell numbers are compared as doubles, and two texts of which one spells no
number by their characters. So two orders meet in one operator, and this file says where each of them
shows.

The doubles that integers become are in the order of the integers, except that two different integers
may become one double (`Decimal.Merged`): these the order operators take for equal, while `==`, which
compares the integers, does not (`integer_order`). Among texts, a chain of the two orders need not close:
a text that spells no number may stand between two that do, whose numbers are in the other order
(`Straddled`). Everywhere else `<` is transitive (`text_order`).
-/

set_option autoImplicit false

namespace BlockConfig.Value

open Decimal

/-- An operator gives true. -/
def Holds (op : BinaryOp) (l r : Value) : Prop :=
  binary op l r = .ok (bool true)

/-! ## 1. Comparing numbers -/

/-- Doubles compare like their values. -/
theorem compareFloats_eq (x y : Float) :
    compareFloats x y = Option.map₂ cmp (value? x) (value? y) := by
  have hlt := @lt_iff_value x y
  have hgt := @lt_iff_value y x
  have heq := @beq_iff_value x y
  unfold compareFloats
  cases hx : value? x with
  | none =>
    simp only [hx, reduceCtorEq, false_and, and_false, exists_false, iff_false] at hlt hgt heq
    rw [if_neg hlt, if_neg heq, if_neg hgt]
    rfl
  | some p =>
    cases hy : value? y with
    | none =>
      simp only [hy, reduceCtorEq, false_and, and_false, exists_false, iff_false] at hlt hgt heq
      rw [if_neg hlt, if_neg heq, if_neg hgt]
      rfl
    | some q =>
      simp only [hx, hy, Option.some.injEq, ↓existsAndEq, true_and] at hlt hgt heq
      rw [Option.map₂_some_some]
      rcases lt_trichotomy p q with h | rfl | h
      · rw [if_pos (hlt.2 h), (cmp_eq_lt_iff _ _).2 h]
      · rw [if_neg (fun h => lt_irrefl p (hlt.1 h)), if_pos (heq.2 rfl), cmp_self_eq_eq]
      · rw [if_neg (fun h' => lt_asymm h (hlt.1 h')), if_neg (fun h' => h.ne (heq.1 h')),
          if_pos (hgt.2 h), (cmp_eq_gt_iff _ _).2 h]

/-- Operands that are numbers, or texts that spell some, are compared as doubles. -/
theorem compare_numbers {op : BinaryOp} {l r : Value} {a b : Number} (hl : l.toNumber? = some a)
    (hr : r.toNumber? = some b) :
    compare op l r = .ok (bool ((compareFloats a.toFloat b.toFloat).any (accepts op))) := by
  unfold compare
  rw [hl, hr]

/-- Integers compare like the rounded ones. -/
theorem compare_int (op : BinaryOp) (a b : Int64) :
    compare op (int a) (int b) = .ok (bool (accepts op (cmp (rounded a.toInt) (rounded b.toInt)))) := by
  rw [compare_numbers (a := .int a) (b := .int b) rfl rfl, compareFloats_eq, Number.toFloat,
    Number.toFloat, value?_ofInt64, value?_ofInt64, Option.map₂_some_some, Extended.cmp_of,
    Int.cast_strictMono.cmp_map_eq]
  rfl

/-! ## 2. Integers -/

/-- The order operators give the order of two integers. -/
structure OrderedAsIntegers (a b : Int64) : Prop where
  lt : binary .lt (int a) (int b) = .ok (bool (decide (a.toInt < b.toInt)))
  le : binary .le (int a) (int b) = .ok (bool (decide (a.toInt ≤ b.toInt)))
  gt : binary .gt (int a) (int b) = .ok (bool (decide (b.toInt < a.toInt)))
  ge : binary .ge (int a) (int b) = .ok (bool (decide (b.toInt ≤ a.toInt)))

/-- The order operators take two integers for equal that `==` tells apart. -/
structure TakenForEqual (a b : Int64) : Prop where
  eq : binary .eq (int a) (int b) = .ok (bool false)
  lt : binary .lt (int a) (int b) = .ok (bool false)
  le : binary .le (int a) (int b) = .ok (bool true)
  gt : binary .gt (int a) (int b) = .ok (bool false)
  ge : binary .ge (int a) (int b) = .ok (bool true)

/-- Exactly one of less, equal and greater holds between two values. -/
def Trichotomous (l r : Value) : Prop :=
  (Holds .lt l r ∧ ¬ Holds .eq l r ∧ ¬ Holds .gt l r) ∨
    (¬ Holds .lt l r ∧ Holds .eq l r ∧ ¬ Holds .gt l r) ∨
    (¬ Holds .lt l r ∧ ¬ Holds .eq l r ∧ Holds .gt l r)

section Integers

variable {a b : Int64}

/-- The four order operators, in terms of how two integers compare. -/
theorem accepts_cmp (i j : ℤ) :
    accepts .lt (cmp i j) = decide (i < j) ∧ accepts .le (cmp i j) = decide (i ≤ j) ∧
      accepts .gt (cmp i j) = decide (j < i) ∧ accepts .ge (cmp i j) = decide (j ≤ i) := by
  rcases lt_trichotomy i j with h | rfl | h
  · rw [(cmp_eq_lt_iff _ _).2 h]
    simp [accepts, h, h.le, h.not_gt, h.not_ge]
  · rw [cmp_self_eq_eq]
    simp [accepts]
  · rw [(cmp_eq_gt_iff _ _).2 h]
    simp [accepts, h, h.le, h.not_gt, h.not_ge]

/-- Equality of integers does not go through doubles. -/
theorem binary_eq_int (a b : Int64) :
    binary .eq (int a) (int b) = .ok (bool (decide (a.toInt = b.toInt))) := by
  have hequal : equal (int a) (int b) = decide (a = b) := by
    rw [equal, same]
    · rfl
    all_goals simp
  show Except.ok (bool (equal (int a) (int b))) = _
  rw [hequal, decide_eq_decide.2 Int64.toInt_inj]

/-- An operator holds of two values when its result is true. -/
theorem holds_of_binary {op : BinaryOp} {l r : Value} {p : Prop} [Decidable p]
    (h : binary op l r = .ok (bool (decide p))) : Holds op l r ↔ p := by
  simp [Holds, h]

/-- Integers that do not merge are compared right: becoming doubles keeps their order, and only equal ones
become equal. -/
theorem orderedAsIntegers_of_not_merged (h : ¬ Merged a.toInt b.toInt) : OrderedAsIntegers a b := by
  obtain ⟨hlt, hle, hgt, hge⟩ := accepts_cmp a.toInt b.toInt
  have hcompare := fun op => compare_int op a b
  rw [cmp_rounded h] at hcompare
  constructor
  · rw [← hlt]
    exact hcompare .lt
  · rw [← hle]
    exact hcompare .le
  · rw [← hgt]
    exact hcompare .gt
  · rw [← hge]
    exact hcompare .ge

/-- Integers that merge compare like equal ones. Their equality sees the difference. -/
theorem takenForEqual_of_merged (h : Merged a.toInt b.toInt) : TakenForEqual a b := by
  have hcompare := fun op => compare_int op a b
  rw [h.2, cmp_self_eq_eq] at hcompare
  refine ⟨?_, hcompare .lt, hcompare .le, hcompare .gt, hcompare .ge⟩
  rw [binary_eq_int, decide_eq_false h.1]

/-- In the order of the integers exactly one of the three holds. -/
theorem OrderedAsIntegers.trichotomous (h : OrderedAsIntegers a b) :
    Trichotomous (int a) (int b) := by
  unfold Trichotomous
  rw [holds_of_binary h.lt, holds_of_binary h.gt, holds_of_binary (binary_eq_int a b)]
  omega

/-- Of two that are taken for equal none of the three does. -/
theorem TakenForEqual.not_trichotomous (h : TakenForEqual a b) :
    ¬ Trichotomous (int a) (int b) := by
  simp [Trichotomous, Holds, h.eq, h.lt, h.gt]

/-- So they are not in their order. -/
theorem TakenForEqual.not_ordered (h : TakenForEqual a b) : ¬ OrderedAsIntegers a b :=
  fun ordered => h.not_trichotomous ordered.trichotomous

/-- **Integers are in their order, unless two of them merge.** The order operators give the order of two
integers, and exactly one of `<`, `==` and `>` holds between them, exactly if the two do not become one
double without being the same. Two that do are taken for equal by the order operators and not by `==`;
both of them are `2 ^ 53` or more in size. -/
theorem integer_order (a b : Int64) :
    (OrderedAsIntegers a b ↔ ¬ Merged a.toInt b.toInt) ∧
      (Trichotomous (int a) (int b) ↔ ¬ Merged a.toInt b.toInt) ∧
      (TakenForEqual a b ↔ Merged a.toInt b.toInt) ∧
      (Merged a.toInt b.toInt → 2 ^ 53 ≤ a.toInt.natAbs ∧ 2 ^ 53 ≤ b.toInt.natAbs) := by
  have hmerged : Merged a.toInt b.toInt → TakenForEqual a b := takenForEqual_of_merged
  have hordered : ¬ Merged a.toInt b.toInt → OrderedAsIntegers a b := orderedAsIntegers_of_not_merged
  refine ⟨⟨?_, hordered⟩, ⟨?_, fun h => (hordered h).trichotomous⟩, ⟨?_, hmerged⟩, ?_⟩
  · exact fun h merged => (hmerged merged).not_ordered h
  · exact fun h merged => (hmerged merged).not_trichotomous h
  · intro h
    by_contra apart
    exact h.not_ordered (hordered apart)
  · exact fun h => ⟨h.le_natAbs, h.symm.le_natAbs⟩

/-- The first two integers that merge. -/
theorem integer_order_merged :
    Merged (9007199254740992 : Int64).toInt (9007199254740993 : Int64).toInt ∧
      ¬ OrderedAsIntegers 9007199254740992 9007199254740993 ∧
      ¬ Trichotomous (int 9007199254740992) (int 9007199254740993) ∧
      2 ^ 53 ≤ (9007199254740992 : Int64).toInt.natAbs := by
  have hmerged : Merged (9007199254740992 : Int64).toInt (9007199254740993 : Int64).toInt := by
    decide +kernel
  have h := integer_order 9007199254740992 9007199254740993
  refine ⟨hmerged, ?_, ?_, (h.2.2.2 hmerged).1⟩
  · exact fun ordered => h.1.1 ordered hmerged
  · exact fun one => h.2.1.1 one hmerged

end Integers

/-! ## 3. Texts -/

/-- One text is less than another. -/
def Less (x y : String) : Prop :=
  Holds .lt (str x) (str y)

/-- A text that spells no number stands between two that spell numbers, and these numbers are not in the
order of their texts. -/
structure Straddled (p m q : String) : Prop where
  low : p < m
  high : m < q
  plain : Number.ofText? m = none
  swapped : ∃ a b, Number.ofText? p = some a ∧ Number.ofText? q = some b ∧ ¬ a.toFloat < b.toFloat

/-- One of three texts is straddled by the other two, in the order in which they stand or in one that
begins with the second or the third. -/
def Crossed (x y z : String) : Prop :=
  Straddled x y z ∨ Straddled y z x ∨ Straddled z x y

section Texts

variable {x y z : String} {a b c : Number}

/-- Of two texts that spell numbers the one with the smaller number is less … -/
theorem binary_lt_of_numbers (hx : Number.ofText? x = some a) (hy : Number.ofText? y = some b) :
    binary .lt (str x) (str y) = .ok (bool (decide (a.toFloat < b.toFloat))) := by
  have hcompare : compare .lt (str x) (str y) = _ := compare_numbers hx hy
  show compare .lt (str x) (str y) = _
  rw [hcompare]
  unfold compareFloats
  by_cases h : a.toFloat < b.toFloat
  · rw [if_pos h, decide_eq_true h]
    rfl
  · rw [if_neg h, decide_eq_false h]
    split
    · rfl
    · split <;> rfl

/-- … and of any other two the one that comes first by its characters. -/
theorem binary_lt_of_plain (h : Number.ofText? x = none ∨ Number.ofText? y = none) :
    binary .lt (str x) (str y) = .ok (bool (decide (x < y))) := by
  have hcompare : binary .lt (str x) (str y) = .ok (bool (accepts .lt (compareStrings x y))) := by
    show compare .lt (str x) (str y) = _
    unfold compare
    split
    next a b hx hy =>
      rcases h with h | h
      · cases h.symm.trans hx
      · cases h.symm.trans hy
    · rfl
  rw [hcompare]
  unfold compareStrings
  by_cases h : x < y
  · rw [if_pos h, decide_eq_true h]
    rfl
  · rw [if_neg h, decide_eq_false h]
    split <;> rfl

/-- Texts that spell numbers are compared by these. -/
theorem less_of_numbers (hx : Number.ofText? x = some a) (hy : Number.ofText? y = some b) :
    Less x y ↔ a.toFloat < b.toFloat :=
  holds_of_binary (binary_lt_of_numbers hx hy)

/-- If one of two texts spells none, they are compared as texts. -/
theorem less_of_plain (h : Number.ofText? x = none ∨ Number.ofText? y = none) : Less x y ↔ x < y :=
  holds_of_binary (binary_lt_of_plain h)

/-- No text is less than itself, whether it spells a number or not. -/
theorem binary_lt_self (x : String) : binary .lt (str x) (str x) = .ok (bool false) := by
  cases hx : Number.ofText? x with
  | none => rw [binary_lt_of_plain (.inl hx), decide_eq_false (String.lt_irrefl x)]
  | some a => rw [binary_lt_of_numbers hx hx, decide_eq_false (not_lt_self _)]

section Crossed

/-- That texts cross does not depend on which of them comes first. -/
theorem crossed_rotate : Crossed x y z ↔ Crossed y z x := by
  unfold Crossed
  tauto

/-- A straddled text spells no number, and the two around it do. -/
theorem Straddled.spelled {p m q : String} (h : Straddled p m q) :
    Number.ofText? p ≠ none ∧ Number.ofText? m = none ∧ Number.ofText? q ≠ none := by
  obtain ⟨a, b, hp, hq, -⟩ := h.swapped
  rw [hp, hq]
  exact ⟨Option.some_ne_none a, h.plain, Option.some_ne_none b⟩

/-- A crossing takes two texts that spell numbers and one that does not. -/
theorem Crossed.spelled (h : Crossed x y z) :
    (Number.ofText? x ≠ none ∧ Number.ofText? y = none ∧ Number.ofText? z ≠ none) ∨
      (Number.ofText? y ≠ none ∧ Number.ofText? z = none ∧ Number.ofText? x ≠ none) ∨
      (Number.ofText? z ≠ none ∧ Number.ofText? x = none ∧ Number.ofText? y ≠ none) :=
  h.imp Straddled.spelled (Or.imp Straddled.spelled Straddled.spelled)

/-- If only the one in the middle spells no number, the three cross when it lies between the others as a
text while their numbers are not in this order. -/
theorem crossed_iff (hx : Number.ofText? x = some a) (hy : Number.ofText? y = none)
    (hz : Number.ofText? z = some c) : Crossed x y z ↔ x < y ∧ y < z ∧ ¬ a.toFloat < c.toFloat := by
  constructor
  · rintro (⟨low, high, -, a', c', hx', hz', swapped⟩ | ⟨-, -, plain, -⟩ | ⟨-, -, plain, -⟩)
    · rw [hx] at hx'
      rw [hz] at hz'
      cases hx'
      cases hz'
      exact ⟨low, high, swapped⟩
    · exact absurd (hz.symm.trans plain) (Option.some_ne_none c)
    · exact absurd (hx.symm.trans plain) (Option.some_ne_none a)
  · rintro ⟨low, high, swapped⟩
    exact .inl ⟨low, high, hy, a, c, hx, hz, swapped⟩

end Crossed

/-- With at most one number among them, texts compare by their characters only. -/
theorem less_trans_of_plain (h₁ : Number.ofText? x = none ∨ Number.ofText? y = none)
    (h₂ : Number.ofText? y = none ∨ Number.ofText? z = none)
    (h₃ : Number.ofText? x = none ∨ Number.ofText? z = none) (hxy : Less x y) (hyz : Less y z) :
    Less x z ↔ ¬ Crossed x y z := by
  have hcrossed : ¬ Crossed x y z := by
    intro h
    rcases h.spelled with ⟨hx, -, hz⟩ | ⟨hy, -, hx⟩ | ⟨hz, -, hy⟩
    · exact h₃.elim hx hz
    · exact h₁.elim hx hy
    · exact h₂.elim hy hz
  rw [less_of_plain h₁] at hxy
  rw [less_of_plain h₂] at hyz
  rw [less_of_plain h₃]
  exact iff_of_true (String.lt_trans hxy hyz) hcrossed

/-- Three numbers compare as such only. -/
theorem less_trans_of_numbers (hx : Number.ofText? x = some a) (hy : Number.ofText? y = some b)
    (hz : Number.ofText? z = some c) (hxy : Less x y) (hyz : Less y z) :
    Less x z ↔ ¬ Crossed x y z := by
  have hcrossed : ¬ Crossed x y z := by
    intro h
    rcases h.spelled with ⟨-, plain, -⟩ | ⟨-, plain, -⟩ | ⟨-, plain, -⟩
    · exact absurd (hy.symm.trans plain) (Option.some_ne_none b)
    · exact absurd (hz.symm.trans plain) (Option.some_ne_none c)
    · exact absurd (hx.symm.trans plain) (Option.some_ne_none a)
  rw [less_of_numbers hx hy] at hxy
  rw [less_of_numbers hy hz] at hyz
  rw [less_of_numbers hx hz]
  exact iff_of_true (lt_trans_float hxy hyz) hcrossed

/-- A text that spells a number and one that does not are never the same text, so one of them comes
first. -/
theorem not_lt_iff_of_spelled (hx : Number.ofText? x = none) (hy : Number.ofText? y = some b) :
    (¬ x < y ↔ y < x) ∧ (¬ y < x ↔ x < y) := by
  have hne : x ≠ y := by
    rintro rfl
    rw [hx] at hy
    cases hy
  rw [String.not_lt, String.not_lt]
  exact ⟨⟨fun h => Std.lt_of_le_of_ne h hne.symm, Std.le_of_lt⟩,
    ⟨fun h => Std.lt_of_le_of_ne h hne, Std.le_of_lt⟩⟩

/-- `<` is transitive on three texts exactly if none of them is straddled by the other two. -/
theorem less_trans_iff (hxy : Less x y) (hyz : Less y z) : Less x z ↔ ¬ Crossed x y z := by
  -- Two texts that spell numbers are compared as numbers, and as texts with any other. With fewer than
  -- two of them, or three, all comparisons are of one kind; the order can fail with exactly two.
  cases hx : Number.ofText? x with
  | none =>
    cases hy : Number.ofText? y with
    | none => exact less_trans_of_plain (.inl hx) (.inl hy) (.inl hx) hxy hyz
    | some b =>
      cases hz : Number.ofText? z with
      | none => exact less_trans_of_plain (.inl hx) (.inr hz) (.inl hx) hxy hyz
      | some c =>
        rw [less_of_plain (.inl hx)] at hxy ⊢
        rw [less_of_numbers hy hz] at hyz
        have hback : ¬ c.toFloat < b.toFloat := fun h => not_lt_self _ (lt_trans_float hyz h)
        rw [crossed_rotate, crossed_rotate, crossed_iff hz hx hy, ← (not_lt_iff_of_spelled hx hz).2]
        exact not_congr ⟨fun h => ⟨h, hxy, hback⟩, fun h => h.1⟩
  | some a =>
    cases hy : Number.ofText? y with
    | none =>
      cases hz : Number.ofText? z with
      | none => exact less_trans_of_plain (.inr hy) (.inl hy) (.inr hz) hxy hyz
      | some c =>
        rw [less_of_plain (.inr hy)] at hxy
        rw [less_of_plain (.inl hy)] at hyz
        rw [less_of_numbers hx hz, crossed_iff hx hy hz]
        exact ⟨fun h crossed => crossed.2.2 h, fun h => by_contra fun hn => h ⟨hxy, hyz, hn⟩⟩
    | some b =>
      cases hz : Number.ofText? z with
      | none =>
        rw [less_of_numbers hx hy] at hxy
        rw [less_of_plain (.inr hz)] at hyz ⊢
        have hback : ¬ b.toFloat < a.toFloat := fun h => not_lt_self _ (lt_trans_float hxy h)
        rw [crossed_rotate, crossed_iff hy hz hx, ← (not_lt_iff_of_spelled hz hx).1]
        exact not_congr ⟨fun h => ⟨hyz, h, hback⟩, fun h => h.2.1⟩
      | some c => exact less_trans_of_numbers hx hy hz hxy hyz

/-- **Texts are ordered, unless the order of their characters crosses that of their numbers.** Two texts
compare by their numbers if both spell some, and else by their characters. No text is less than itself;
and of three texts of which the first is less than the second and the second less than the third, the
first is less than the third exactly if none of the three stands, as a text that spells no number, between
the other two, which spell numbers that are not in the order of their texts. -/
theorem text_order (x y z : String) :
    (∀ a b, Number.ofText? x = some a → Number.ofText? y = some b →
        binary .lt (str x) (str y) = .ok (bool (decide (a.toFloat < b.toFloat)))) ∧
      (Number.ofText? x = none ∨ Number.ofText? y = none →
        binary .lt (str x) (str y) = .ok (bool (decide (x < y)))) ∧
      binary .lt (str x) (str x) = .ok (bool false) ∧
      (Less x y → Less y z → (Less x z ↔ ¬ Crossed x y z)) :=
  ⟨fun _ _ => binary_lt_of_numbers, binary_lt_of_plain, binary_lt_self x, less_trans_iff⟩

/-- A word behind two numbers is not between them. -/
theorem text_order_numbersFirst : Less "9" "10" ∧ Less "10" "a" ∧ Less "9" "a" := by
  have hx : Number.ofText? "9" = some (.int 9) := by decide +kernel
  have hy : Number.ofText? "10" = some (.int 10) := by decide +kernel
  have hz : Number.ofText? "a" = none := by decide +kernel
  obtain ⟨numbers, -, -, trans⟩ := text_order "9" "10" "a"
  obtain ⟨-, plain, -⟩ := text_order "10" "a" "9"
  have hxy : Less "9" "10" := (holds_of_binary (numbers _ _ hx hy)).2 (by decide +kernel)
  have hyz : Less "10" "a" := (holds_of_binary (plain (.inr hz))).2 (by decide +kernel)
  have hcrossed : ¬ Crossed "9" "10" "a" := by
    rw [crossed_rotate, crossed_iff hy hz hx]
    exact fun h => absurd h.2.1 (by decide +kernel)
  exact ⟨hxy, hyz, (trans hxy hyz).2 hcrossed⟩

/-- **`<` is not transitive on texts**: ten comes before nine by way of a text that spells no number. -/
theorem less_not_transitive : Less "10" "1a" ∧ Less "1a" "9" ∧ ¬ Less "10" "9" := by
  have hx : Number.ofText? "10" = some (.int 10) := by decide +kernel
  have hy : Number.ofText? "1a" = none := by decide +kernel
  have hz : Number.ofText? "9" = some (.int 9) := by decide +kernel
  rw [less_of_plain (.inr hy), less_of_plain (.inl hy), less_of_numbers hx hz]
  exact ⟨by decide +kernel, by decide +kernel, by decide +kernel⟩

end Texts

end BlockConfig.Value
