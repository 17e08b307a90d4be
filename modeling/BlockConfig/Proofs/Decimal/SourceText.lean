import BlockConfig.Proofs.Decimal.Digits
import BlockConfig.Proofs.Decimal.Scaling
import BlockConfig.Proofs.Decimal.Shortest
import BlockConfig.Proofs.Lexing.Lexemes

/-!
Doubles in documents.

The text of a finite double that is not negative is one number, and it is read back as this double
(`numberLiteral?_sourceText`). The text shows the digits of the shortest decimal, with zeros around them
where the point stands outside of them, so what is read has the value of that decimal. The zeros and the
point only move the exponent.
-/

set_option autoImplicit false

namespace BlockConfig.Decimal

/-! ## 1. Lists of digits -/

/-- A list of digits. -/
def AllDigits (ds : List Char) : Prop :=
  ∀ c ∈ ds, c.isDigit = true

theorem AllDigits.append {xs ys : List Char} (hx : AllDigits xs) (hy : AllDigits ys) :
    AllDigits (xs ++ ys) := by
  intro c hc
  rcases List.mem_append.1 hc with hc | hc
  · exact hx c hc
  · exact hy c hc

theorem allDigits_zeros (n : ℕ) : AllDigits (List.replicate n '0') := by
  intro c hc
  rw [List.eq_of_mem_replicate hc]
  rfl

/-- Digits in front count as many times ten as there are digits behind them. -/
theorem digitsValue_append (xs ys : List Char) :
    digitsValue (xs ++ ys) = digitsValue xs * 10 ^ ys.length + digitsValue ys := by
  have hfoldl : ∀ (ys : List Char) (n : ℕ), ys.foldl (fun n c => 10 * n + digitValue c) n =
      n * 10 ^ ys.length + ys.foldl (fun n c => 10 * n + digitValue c) 0 := by
    intro ys
    induction ys with
    | nil =>
      intro n
      simp
    | cons y ys ih =>
      intro n
      rw [List.foldl_cons, List.foldl_cons, ih, ih (10 * 0 + digitValue y), List.length_cons, pow_succ]
      ring
  unfold digitsValue
  rw [List.foldl_append, hfoldl]

/-- Zeros count nothing, so a mantissa may be filled up with them. -/
theorem digitsValue_zeros (n : ℕ) : digitsValue (List.replicate n '0') = 0 := by
  induction n with
  | zero => rfl
  | succ n ih =>
    rw [List.replicate_succ', digitsValue_append, ih]
    rfl

/-- Zeros in front of digits do not count, and each one behind them multiplies by ten. -/
theorem digitsValue_padded (a b : ℕ) (ds : List Char) :
    digitsValue (List.replicate a '0' ++ ds ++ List.replicate b '0') = digitsValue ds * 10 ^ b := by
  rw [digitsValue_append, digitsValue_append, digitsValue_zeros, digitsValue_zeros,
    List.length_replicate, zero_mul, zero_add, add_zero]

/-- Digits stand for less than the power of ten of their number. -/
theorem digitsValue_lt {ds : List Char} (h : AllDigits ds) : digitsValue ds < 10 ^ ds.length := by
  induction ds with
  | nil => exact Nat.one_pos
  | cons d ds ih =>
    have hds := ih fun c hc => h c (List.mem_cons_of_mem _ hc)
    have hd := h d List.mem_cons_self
    have hdigit : digitsValue [d] ≤ 9 := by
      rw [Char.isDigit_iff_toNat] at hd
      have h0 : '0'.toNat = 48 := rfl
      have h9 : '9'.toNat = 57 := rfl
      show 10 * 0 + (d.toNat - '0'.toNat) ≤ 9
      omega
    have hmul := Nat.mul_le_mul_right (10 ^ ds.length) hdigit
    rw [← List.singleton_append, digitsValue_append, List.singleton_append, List.length_cons, pow_succ]
    omega

/-- Only zeros are dropped from the end. -/
theorem dropZeros_append (ds : List Char) : ∃ r, dropZeros ds ++ List.replicate r '0' = ds := by
  have hzeros : ∀ c ∈ ds.reverse.takeWhile (· == '0'), c = '0' := by
    intro c hc
    have hall := List.all_takeWhile (l := ds.reverse) (p := (· == '0'))
    rw [List.all_eq_true] at hall
    exact beq_iff_eq.1 (hall c hc)
  have hreplicate := List.eq_replicate_of_mem hzeros
  refine ⟨(ds.reverse.takeWhile (· == '0')).length, ?_⟩
  calc dropZeros ds ++ List.replicate (ds.reverse.takeWhile (· == '0')).length '0'
      = (ds.reverse.dropWhile (· == '0')).reverse ++ (ds.reverse.takeWhile (· == '0')).reverse := by
        rw [← List.reverse_replicate, ← hreplicate]
        rfl
    _ = (ds.reverse.takeWhile (· == '0') ++ ds.reverse.dropWhile (· == '0')).reverse :=
        List.reverse_append.symm
    _ = ds := by rw [List.takeWhile_append_dropWhile, List.reverse_reverse]

/-! ## 2. Reading the parts of a number -/

/-- A fraction with its point, which is left out if there is no fraction. -/
def pointed (fraction : List Char) : List Char :=
  if fraction.isEmpty then [] else '.' :: fraction

section Reading

variable {whole fraction exponent : List Char} {k : ℤ}

theorem toLower_of_isDigit {c : Char} (h : c.isDigit = true) : c.toLower = c := by
  rw [Char.isDigit_iff_toNat] at h
  have h9 : c.toNat ≤ 57 := h.2
  unfold Char.toLower
  rw [dif_neg]
  rintro ⟨hA, -⟩
  have hA : 65 ≤ c.toNat := hA
  omega

/-- The fraction behind its point, and the rest. -/
def fractionOf : List Char → List Char × List Char
  | '.' :: rest => (rest.takeWhile Char.isDigit, rest.dropWhile Char.isDigit)
  | rest => ([], rest)

/-- What is read behind the sign: a word for an infinity or for no number, or digits with a fraction and an
exponent. The digits of both parts are read together, and the length of the fraction is taken off the
exponent. -/
theorem readSize?_eq (cs : List Char) :
    readSize? cs =
      if cs.map Char.toLower = "inf".toList ∨ cs.map Char.toLower = "infinity".toList then
        some infinity
      else if cs.map Char.toLower = "nan".toList then some notANumber
      else if (cs.takeWhile Char.isDigit ++ (fractionOf (cs.dropWhile Char.isDigit)).1).isEmpty then
        none
      else (readExponent? (fractionOf (cs.dropWhile Char.isDigit)).2).map fun k =>
        scale (digitsValue (cs.takeWhile Char.isDigit ++ (fractionOf (cs.dropWhile Char.isDigit)).1))
          (cs.takeWhile Char.isDigit ++ (fractionOf (cs.dropWhile Char.isDigit)).1).length
          (k - (fractionOf (cs.dropWhile Char.isDigit)).1.length) :=
  rfl

/-- A fraction is read up to the mark of the exponent. -/
theorem fractionOf_pointed (hf : AllDigits fraction)
    (hmark : ∀ c ∈ exponent.head?, c.isDigit = false ∧ c ≠ '.') :
    fractionOf (pointed fraction ++ exponent) = (fraction, exponent) := by
  unfold pointed
  by_cases hnil : fraction = []
  · subst hnil
    rw [List.isEmpty_nil, if_pos rfl, List.nil_append]
    unfold fractionOf
    split
    next rest => exact absurd rfl (hmark '.' (by simp)).2
    next => rfl
  · obtain ⟨h1, h2⟩ := takeWhile_append hf fun c hc => (hmark c hc).1
    rw [if_neg (by rw [List.isEmpty_iff]; exact hnil), List.cons_append, fractionOf, h1, h2]

/-- Behind the digits there is a point, a mark or nothing, and in no case a digit. -/
theorem head?_pointed (fraction : List Char)
    (hmark : ∀ c ∈ exponent.head?, c.isDigit = false ∧ c ≠ '.') :
    ∀ c ∈ (pointed fraction ++ exponent).head?, c.isDigit = false := by
  unfold pointed
  by_cases hnil : fraction = []
  · subst hnil
    exact fun c hc => (hmark c hc).1
  · rw [if_neg (by rw [List.isEmpty_iff]; exact hnil), List.cons_append, List.head?_cons]
    intro c hc
    obtain rfl := Option.some.inj hc
    rfl

/-- What begins with a digit is read by its parts. -/
theorem readSize?_parts (hw : AllDigits whole) (hne : whole ≠ []) (hf : AllDigits fraction)
    (hmark : ∀ c ∈ exponent.head?, c.isDigit = false ∧ c ≠ '.')
    (he : readExponent? exponent = some k) :
    readSize? (whole ++ (pointed fraction ++ exponent)) =
      some (scale (digitsValue (whole ++ fraction)) (whole ++ fraction).length
        (k - fraction.length)) := by
  have hempty : ¬ (whole ++ fraction).isEmpty = true := by
    rw [List.isEmpty_iff]
    exact List.append_ne_nil_of_left_ne_nil hne _
  have hword : ∀ (c : Char) (cs : List Char), c.isDigit = false →
      ¬ (whole ++ (pointed fraction ++ exponent)).map Char.toLower = c :: cs := by
    intro c cs hc h
    obtain ⟨d, ds, rfl⟩ := List.exists_cons_of_ne_nil hne
    have hd := hw d List.mem_cons_self
    rw [List.cons_append, List.map_cons, toLower_of_isDigit hd] at h
    rw [(List.cons.inj h).1, hc] at hd
    cases hd
  obtain ⟨h1, h2⟩ := takeWhile_append hw (head?_pointed fraction hmark)
  rw [readSize?_eq, if_neg, if_neg, h1, h2]
  · rw [fractionOf_pointed hf hmark, if_neg hempty, he]
    rfl
  · exact hword 'n' _ rfl
  · rintro (h | h)
    · exact hword 'i' _ rfl h
    · exact hword 'i' _ rfl h

/-! ## 3. Numbers with a point or an exponent -/

/-- An integer is printed as its digits, with a sign in front if it is negative. -/
theorem toList_toString_int (j : ℤ) :
    ∃ sign : List Char, (sign = [] ∨ sign = ['-']) ∧
      (toString j).toList = sign ++ Nat.toDigits 10 j.natAbs := by
  cases j with
  | ofNat n => exact ⟨[], .inl rfl, Nat.toList_repr⟩
  | negSucc n =>
    refine ⟨['-'], .inr rfl, ?_⟩
    show ("-" ++ Nat.repr (n + 1)).toList = ['-'] ++ Nat.toDigits 10 (n + 1)
    rw [String.toList_append, Nat.toList_repr]
    rfl

/-- Printed like this it is read back. -/
theorem readInt?_toString (j : ℤ) : readInt? (toString j).toList = some j := by
  cases j with
  | ofNat n =>
    show readInt? (Nat.repr n).toList = some (n : ℤ)
    rw [Nat.toList_repr, readInt?_toDigits]
  | negSucc n =>
    show readInt? ("-" ++ Nat.repr (n + 1)).toList = _
    rw [String.toList_append, Nat.toList_repr]
    show (if isDigits (Nat.toDigits 10 (n + 1)) then
      some (-(digitsValue (Nat.toDigits 10 (n + 1)) : ℤ)) else none) = _
    rw [if_pos (isDigits_toDigits _), digitsValue_toDigits]
    rfl

/-- Behind the mark it has the form of an exponent. -/
theorem isExponent_toString (j : ℤ) : Lexeme.IsExponent ('e' :: (toString j).toList) := by
  obtain ⟨sign, hsign, hlist⟩ := toList_toString_int j
  obtain ⟨d, ds, hds⟩ := List.exists_cons_of_ne_nil (Nat.toDigits_ne_nil (n := j.natAbs) (b := 10))
  right
  refine ⟨'e', sign, d, ds, ?_, rfl, ?_, ?_⟩
  · rw [hlist, hds]
  · rcases hsign with rfl | rfl
    · exact .inl rfl
    · exact .inr (.inr rfl)
  · intro x hx
    rw [← hds] at hx
    exact isDigit_of_mem_toDigits hx

/-- Behind the point digits have the form of a fraction. -/
theorem isFraction_pointed (hf : AllDigits fraction) : Lexeme.IsFraction (pointed fraction) := by
  unfold pointed
  cases fraction with
  | nil => exact .inl rfl
  | cons d ds => exact .inr ⟨d, ds, rfl, hf⟩

/-- The exponent of a number, which is left out if it is zero. -/
def IsMarked (exponent : List Char) (k : ℤ) : Prop :=
  (exponent = [] ∧ k = 0) ∨ exponent = 'e' :: (toString k).toList

/-- The exponent is read as the number that is meant. -/
theorem IsMarked.readExponent? (h : IsMarked exponent k) : readExponent? exponent = some k := by
  rcases h with ⟨rfl, rfl⟩ | rfl
  · rfl
  · exact readInt?_toString k

/-- A marked exponent begins with its mark, and where nothing is marked there is nothing. -/
theorem IsMarked.head (h : IsMarked exponent k) :
    ∀ c ∈ exponent.head?, c.isDigit = false ∧ c ≠ '.' := by
  intro c hc
  rcases h with ⟨rfl, rfl⟩ | rfl
  · cases hc
  · obtain rfl := Option.some.inj hc
    exact ⟨rfl, by decide⟩

/-- Digits with a point or an exponent are one number, and it is read as a float. -/
theorem number_of_parts (hw : AllDigits whole) (hne : whole ≠ []) (hf : AllDigits fraction)
    (he : IsMarked exponent k) (hshown : fraction ≠ [] ∨ exponent ≠ []) :
    Lexeme.IsNumber (whole ++ (pointed fraction ++ exponent)) ∧
      Rule.numberLiteral? (String.ofList (whole ++ (pointed fraction ++ exponent))) =
        some (.float (scale (digitsValue (whole ++ fraction)) (whole ++ fraction).length
          (k - fraction.length))) := by
  obtain ⟨d, ds, rfl⟩ := List.exists_cons_of_ne_nil hne
  constructor
  · refine ⟨d, ds, pointed fraction, exponent, rfl, hw, isFraction_pointed hf, ?_⟩
    rcases he with ⟨rfl, rfl⟩ | rfl
    · exact .inl rfl
    · exact isExponent_toString k
  -- A point or an exponent is what makes a number a float.
  · have hany : ((d :: ds ++ (pointed fraction ++ exponent)).any fun c =>
        c = '.' ∨ c = 'e' ∨ c = 'E') = true := by
      rw [List.any_eq_true]
      rcases hshown with hnil | hnil
      · refine ⟨'.', ?_, rfl⟩
        unfold pointed
        rw [if_neg (by rw [List.isEmpty_iff]; exact hnil)]
        simp
      · rcases he with ⟨rfl, -⟩ | rfl
        · exact absurd rfl hnil
        · exact ⟨'e', by simp, rfl⟩
    have hsign : readSign (d :: ds ++ (pointed fraction ++ exponent)) =
        (false, d :: ds ++ (pointed fraction ++ exponent)) := by
      apply readSign_of_isDigit
      intro c hc
      obtain rfl := Option.some.inj hc
      exact hw d List.mem_cons_self
    have hsize := readSize?_parts hw hne hf he.head he.readExponent?
    unfold Rule.numberLiteral?
    dsimp only
    rw [String.toList_ofList, hany, if_pos rfl]
    dsimp only
    unfold readFloat?
    rw [hsign]
    dsimp only
    rw [hsize]
    rfl

end Reading

/-! ## 4. The text of a double -/

section Writing

variable {m : ℕ} {e : ℤ}

/-- What is written without an exponent: the digits with zeros around them, and a point among them. -/
theorem positional_parts (ds : List Char) (p : ℤ) :
    ∃ (whole fraction : List Char) (a b : ℕ),
      positional 1 ⟨ds, p⟩ = whole ++ pointed fraction ∧ whole ≠ [] ∧ fraction ≠ [] ∧
      whole ++ fraction = List.replicate a '0' ++ ds ++ List.replicate b '0' ∧
      (fraction.length : ℤ) = b + ds.length - p := by
  -- The three parts that the text is put together from, named, so that the cases below differ in
  -- nothing but these.
  obtain ⟨start, hstart⟩ : ∃ start, start = zeros (-p) ++ ds.drop p.toNat := ⟨_, rfl⟩
  obtain ⟨fraction, hfraction⟩ : ∃ fraction, fraction = start ++ zeros (1 - start.length) := ⟨_, rfl⟩
  obtain ⟨whole, hwhole⟩ : ∃ whole, whole = if p ≤ 0 then ['0']
    else ds.take p.toNat ++ zeros (p - ds.length) := ⟨_, rfl⟩
  have hpositional : positional 1 ⟨ds, p⟩ = whole ++ pointed fraction := by
    unfold positional pointed
    dsimp only
    rw [Nat.cast_one, ← hstart, ← hfraction, ← hwhole]
    split
    · rw [List.append_nil]
    · rfl
  have hlength : (fraction.length : ℤ) = max 1 start.length := by
    rw [hfraction, List.length_append, zeros, List.length_replicate]
    omega
  have hfraction' : fraction ≠ [] := by
    intro hnil
    rw [hnil, List.length_nil] at hlength
    omega
  by_cases hp : p ≤ 0
  -- The point stands in front of the digits.
  · have htoNat : p.toNat = 0 := by omega
    rw [htoNat, List.drop_zero] at hstart
    rw [if_pos hp] at hwhole
    refine ⟨whole, fraction, 1 + (-p).toNat, (1 - (start.length : ℤ)).toNat, hpositional, ?_,
      hfraction', ?_, ?_⟩
    · rw [hwhole]
      exact List.cons_ne_nil _ _
    · rw [hwhole, hfraction, hstart, zeros, zeros, List.replicate_add]
      simp only [List.append_assoc]
      rfl
    · rw [hlength, hstart, zeros, List.length_append, List.length_replicate]
      omega
  · have hneg : (-p).toNat = 0 := by omega
    rw [zeros, hneg, List.replicate_zero, List.nil_append] at hstart
    rw [if_neg hp] at hwhole
    have hwhole' : whole ≠ [] := by
      intro hnil
      have hlen := congrArg List.length hwhole
      rw [hnil, List.length_append, List.length_take, zeros, List.length_replicate,
        List.length_nil] at hlen
      omega
    have hdrop : start.length = ds.length - p.toNat := by rw [hstart, List.length_drop]
    by_cases hinside : p < ds.length
    · -- The point stands among the digits.
      have hnone : (p - (ds.length : ℤ)).toNat = 0 := by omega
      rw [zeros, hnone, List.replicate_zero, List.append_nil] at hwhole
      refine ⟨whole, fraction, 0, (1 - (start.length : ℤ)).toNat, hpositional, hwhole', hfraction',
        ?_, ?_⟩
      · rw [hwhole, hfraction, hstart, zeros, ← List.append_assoc, List.take_append_drop]
        rfl
      · rw [hlength]
        omega
    · -- The point stands behind them.
      have htake : ds.take p.toNat = ds := List.take_of_length_le (by omega)
      have hempty : start = [] := List.eq_nil_of_length_eq_zero (by omega)
      rw [htake] at hwhole
      refine ⟨whole, fraction, 0, (p - (ds.length : ℤ)).toNat + 1, hpositional, hwhole', hfraction',
        ?_, ?_⟩
      · rw [hwhole, hfraction, hempty, zeros, List.replicate_add]
        simp only [List.append_assoc]
        rfl
      · rw [hlength, hempty, List.length_nil]
        omega

/-- What is written with an exponent: the digits, with a point behind the first of them. -/
theorem scientific_parts (d : Char) (ds : List Char) (p : ℤ) :
    scientific ⟨d :: ds, p⟩ = [d] ++ (pointed ds ++ 'e' :: (toString (p - 1)).toList) := by
  unfold scientific pointed
  rw [List.append_assoc]
  rfl

/-- Digits around which zeros are written have the value they have without them. -/
theorem scale_padded {digits ds : List Char} {n a b r : ℕ} {j k : ℤ} (hn : 0 < n)
    (hds : ds ++ List.replicate r '0' = natDigits n)
    (hdigits : digits = List.replicate a '0' ++ ds ++ List.replicate b '0')
    (hj : j = k + r - b) (hd : IsDouble m e) (he : e ≤ 971) (hq : InReach (n * 10 ^ k) m e) :
    scale (digitsValue digits) digits.length j = ofDouble hd := by
  -- Zeros behind the digits count as a power of ten, and zeros in front for nothing.
  have hvalue : digitsValue ds * 10 ^ r = n := by
    have h := digitsValue_padded 0 r ds
    rw [List.replicate_zero, List.nil_append, hds, natDigits, digitsValue_toDigits] at h
    exact h.symm
  have hpos : 0 < digitsValue ds := by
    by_contra hzero
    rw [Nat.eq_zero_of_not_pos hzero, zero_mul] at hvalue
    omega
  have hall : AllDigits (natDigits n) := fun c hc => isDigit_of_mem_toDigits hc
  have hall : AllDigits ds := by
    intro c hc
    apply hall
    rw [← hds]
    exact List.mem_append_left _ hc
  have hlt : digitsValue digits < 10 ^ digits.length := by
    rw [hdigits]
    exact digitsValue_lt (((allDigits_zeros a).append hall).append (allDigits_zeros b))
  have hpadded : digitsValue digits = digitsValue ds * 10 ^ b := by
    rw [hdigits, digitsValue_padded]
  apply scale_eq _ hlt hd he
  · have hcast : (digitsValue digits : ℚ) * 10 ^ j = n * 10 ^ k := by
      rw [hpadded, ← hvalue, hj]
      push_cast
      rw [zpow_sub₀ (by norm_num), zpow_add₀ (by norm_num), zpow_natCast, zpow_natCast]
      field_simp
    rw [hcast]
    exact hq
  · rw [hpadded]
    exact Nat.mul_pos hpos (Nat.pow_pos (by norm_num))

/-- A double is printed as a number and read back as itself. Its shortest digits stand for a decimal within
its reach, and every such decimal is read as this double. They are written in one of two ways: with the
point among them and zeros for missing places, or with the point behind the first and an exponent. -/
theorem sourceText_ofDouble (hd : IsDouble m e) (he : e ≤ 971) :
    Lexeme.IsNumber (sourceText (ofDouble hd)).toList ∧
      Rule.numberLiteral? (sourceText (ofDouble hd)) = some (.float (ofDouble hd)) := by
  obtain ⟨n, k, hn, hq, hshortest⟩ :=
    shortest_spec (b := ⟨false, m, e, decide (m = 2 ^ 52 ∧ -1074 < e)⟩) ⟨hd, rfl⟩
  obtain ⟨r, hr⟩ := dropZeros_append (natDigits n)
  generalize hds : dropZeros (natDigits n) = ds at hr hshortest
  have hall : AllDigits ds := by
    intro c hc
    apply isDigit_of_mem_toDigits (n := n)
    show c ∈ natDigits n
    rw [← hr]
    exact List.mem_append_left _ hc
  have hlength : (natDigits n).length = ds.length + r := by
    rw [← hr, List.length_append, List.length_replicate]
  obtain ⟨p, hp⟩ : ∃ p : ℤ, p = (natDigits n).length + k := ⟨_, rfl⟩
  rw [← hp] at hshortest
  have htext : sourceText (ofDouble hd) = String.ofList
      (if -4 < p ∧ p ≤ 16 then positional 1 ⟨ds, p⟩ else scientific ⟨ds, p⟩) := by
    unfold sourceText floatText
    rw [decode_ofDouble hd he]
    dsimp only
    rw [if_neg (Nat.ne_of_gt hd.pos), hshortest]
    rfl
  rw [htext, String.toList_ofList]
  -- The way of writing is chosen by where the point stands; each way is a padding of the digits.
  split
  · obtain ⟨whole, fraction, a, b, hpositional, hwhole, hfraction, hdigits, hlen⟩ :=
      positional_parts ds p
    have hparts : AllDigits (whole ++ fraction) := by
      rw [hdigits]
      exact ((allDigits_zeros a).append hall).append (allDigits_zeros b)
    have hscale := scale_padded (j := 0 - fraction.length) hn hr hdigits (by omega) hd he hq
    have hmarked : IsMarked [] 0 := .inl ⟨rfl, rfl⟩
    have hnumber := number_of_parts
      (fun c hc => hparts c (List.mem_append_left _ hc)) hwhole
      (fun c hc => hparts c (List.mem_append_right _ hc)) hmarked (.inl hfraction)
    rw [List.append_nil, ← hpositional, hscale] at hnumber
    exact hnumber
  · have hne : ds ≠ [] := by
      rintro rfl
      have hvalue := digitsValue_zeros r
      rw [List.nil_append] at hr
      rw [hr, natDigits, digitsValue_toDigits] at hvalue
      omega
    obtain ⟨d, ds, rfl⟩ := List.exists_cons_of_ne_nil hne
    have hdigits : [d] ++ ds = List.replicate 0 '0' ++ d :: ds ++ List.replicate 0 '0' := by
      rw [List.replicate_zero, List.append_nil]
      rfl
    rw [List.length_cons] at hlength
    have hscale := scale_padded (j := p - 1 - ds.length) hn hr hdigits (by omega) hd he hq
    have hmarked : IsMarked ('e' :: (toString (p - 1)).toList) (p - 1) := .inr rfl
    have hnumber := number_of_parts
      (fun c hc => hall c (by rw [List.mem_singleton.1 hc]; exact List.mem_cons_self))
      (List.cons_ne_nil d []) (fun c hc => hall c (List.mem_cons_of_mem _ hc)) hmarked
      (.inr (List.cons_ne_nil _ _))
    rw [← scientific_parts, hscale] at hnumber
    exact hnumber

end Writing

/-- A double without sign that stands for zero is zero, of which there would be two otherwise. -/
theorem eq_zero_of_decode {x : Float} {b : Binary} (h : decode x = some b)
    (hsign : b.negative = false) (hzero : b.significand = 0) : x = 0 := by
  have hlt := x.toBits.toNat_lt
  apply eq_of_toBits
  show x.toBits.toNat = 0
  unfold decode at h
  dsimp only [Nat.pow_eq] at h
  split at h
  · cases h
  split at h
  · cases h
    have hsign := of_decide_eq_false hsign
    have hzero : x.toBits.toNat % 2 ^ 52 = 0 := hzero
    omega
  · cases h
    have hzero : x.toBits.toNat % 2 ^ 52 + 2 ^ 52 = 0 := hzero
    omega

/-- **The text of a finite double that is not negative is read back as this double.** Zero has a text of its
own; any other one is packed from its parts, and its shortest digits are within its reach. -/
theorem numberLiteral?_sourceText {x : Float} {b : Binary} (h : decode x = some b)
    (hsign : b.negative = false) :
    Lexeme.IsNumber (sourceText x).toList ∧
      Rule.numberLiteral? (sourceText x) = some (.float x) := by
  by_cases hzero : b.significand = 0
  · have htext : sourceText x = "0.0" := by
      unfold sourceText floatText
      rw [h]
      dsimp only
      rw [if_pos hzero, hsign]
      rfl
    rw [htext, eq_zero_of_decode h hsign hzero]
    refine ⟨⟨'0', [], ['.', '0'], [], rfl, allDigits_zeros 1, .inr ⟨'0', [], rfl, allDigits_zeros 1⟩,
      .inl rfl⟩, rfl⟩
  · obtain ⟨hd, he, rfl⟩ := eq_ofDouble h hsign (Nat.pos_of_ne_zero hzero)
    exact sourceText_ofDouble hd he

/-! ## 5. The values of numbers -/

section Numbers

variable {text : String} {cs : List Char}

/-- What is read without a sign has none. -/
theorem unsigned_readSize? {x : Float} (h : readSize? cs = some x) : Unsigned x := by
  rw [readSize?_eq] at h
  split at h
  · cases h
    exact unsigned_pack (u := .infinity .positive) rfl
  split at h
  · cases h
    exact unsigned_pack (u := .notANumber) trivial
  split at h
  · cases h
  · obtain ⟨k, -, rfl⟩ := Option.map_eq_some_iff.1 h
    exact unsigned_scale _ _ _

/-- A number in a document is written without a sign; a minus in front of it is an operator. -/
theorem readSign_of_isNumber (h : Lexeme.IsNumber cs) : readSign cs = (false, cs) := by
  obtain ⟨d, ds, f, e, rfl, hd, -⟩ := h
  apply readSign_of_isDigit
  intro c hc
  obtain rfl := Option.some.inj hc
  exact hd d List.mem_cons_self

/-- An integer that is written without sign is not negative. -/
theorem nonneg_of_number {i : Int64} (hn : Lexeme.IsNumber text.toList)
    (h : Rule.numberLiteral? text = some (.int i)) : 0 ≤ i.toInt := by
  -- An integer comes from the reader of integers only; a point or an exponent gives a float.
  have hread : readInt64? text.toList = some i := by
    unfold Rule.numberLiteral? at h
    dsimp only at h
    split at h
    next j hj =>
      cases h
      split at hj
      · cases hj
      · exact hj
    next =>
      obtain ⟨x, -, hx⟩ := Option.map_eq_some_iff.1 h
      cases hx
  unfold readInt64? at hread
  split at hread
  next j hj =>
    split at hread
    next hfits =>
      cases hread
      unfold fitsInt64 at hfits
      rw [Bool.and_eq_true, decide_eq_true_eq, decide_eq_true_eq] at hfits
      have hmax : j ≤ 2 ^ 63 - 1 := hfits.2
      rw [Int64.toInt_ofInt_of_le hfits.1 (by omega)]
      unfold readInt? at hj
      rw [readSign_of_isNumber hn] at hj
      dsimp only at hj
      split at hj
      · cases hj
        exact Int.natCast_nonneg _
      · cases hj
    next => cases hread
  next => cases hread

/-- A finite double that is written without sign is not negative. -/
theorem negative_of_number {x : Float} {b : Binary} (hn : Lexeme.IsNumber text.toList)
    (h : Rule.numberLiteral? text = some (.float x)) (hdecode : decode x = some b) :
    b.negative = false := by
  have hread : readFloat? text.toList = some x := by
    unfold Rule.numberLiteral? at h
    dsimp only at h
    split at h
    · cases h
    · obtain ⟨y, hy, hx⟩ := Option.map_eq_some_iff.1 h
      cases hx
      exact hy
  unfold readFloat? at hread
  rw [readSign_of_isNumber hn] at hread
  obtain ⟨y, hy, rfl⟩ := Option.map_eq_some_iff.1 hread
  exact (unsigned_readSize? hy).negative hdecode

end Numbers

end BlockConfig.Decimal
