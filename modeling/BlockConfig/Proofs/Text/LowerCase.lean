import BlockConfig.Proofs.Lexing.Lawful
import BlockConfig.Text.Case

/-!
Lower case.

A text in lower case is the same in lower case again (`lower_lower`), and it has a blank at an end exactly
if the text had one there (`trim_lower_eq_self_iff`). Both are facts about the tables of letters. No run of
letters is moved onto letters that are moved themselves, and no run meets a blank before or after it is
moved. So each is one comparison of all runs with all others (`CaseRun.misses`), which looks at the ends
of two runs only and, where they overlap, at their parity.

A capital sigma becomes one of two small letters, and which one depends on what stands around it. Neither
of them is moved again, so that does not matter here.
-/

set_option autoImplicit false

namespace BlockConfig.Text

/-! ## 1. Runs -/

namespace CaseRun

/-- A code point lies on a run. -/
def Covers (r : CaseRun) (n : Nat) : Prop :=
  r.first ≤ n ∧ n ≤ r.last ∧ (n - r.first) % r.stride = 0

instance (r : CaseRun) (n : Nat) : Decidable (r.Covers n) :=
  inferInstanceAs (Decidable (_ ∧ _ ∧ _))

/-- Where a run moves a code point. -/
def image (r : CaseRun) (n : Nat) : Nat :=
  ((n : Int) + r.distance).toNat

/-- The same code points, not moved. -/
def unmoved (r : CaseRun) : CaseRun :=
  { r with distance := 0 }

/-- What a run moves does not get onto another one: it stays in front of it or behind it, or every
second code point is moved to where the other one has the gaps. -/
def misses (r r' : CaseRun) : Bool :=
  Nat.blt (r.image r.last) r'.first || Nat.blt r'.last (r.image r.first) ||
    (0 ≤ r.first + r.distance && (r.stride == 2 || r.first == r.last) &&
      (r'.stride == 2 || r'.first == r'.last) && (r.image r.first + r'.first) % 2 == 1)

/-- A run that another one misses covers none of its images. This is checked on the ends of the runs and
holds of all between them, because their steps are the same. -/
theorem not_covers_image {r r' : CaseRun} {n : Nat} (h : r.misses r' = true) (on : r.Covers n) :
    ¬ r'.Covers (r.image n) := by
  obtain ⟨first, last, step⟩ := on
  rintro ⟨first', last', step'⟩
  simp only [misses, Bool.and_eq_true, Bool.or_eq_true, decide_eq_true_eq, beq_iff_eq,
    Nat.blt_eq] at h
  obtain (front | behind) | ⟨⟨⟨positive, wide⟩, wide'⟩, odd⟩ := h
  · simp only [image] at *
    omega
  · simp only [image] at *
    omega
  · have even : (n - r.first) % 2 = 0 := by
      rcases wide with two | one
      · rwa [two] at step
      · omega
    have even' : (r.image n - r'.first) % 2 = 0 := by
      rcases wide' with two | one
      · rwa [two] at step'
      · omega
    simp only [image] at *
    omega

end CaseRun

/-- The partner of a code point is where the first run that it lies on moves it. -/
theorem partner_cases (runs : List CaseRun) (n : Nat) :
    ((∀ r ∈ runs, ¬ r.Covers n) ∧ partner runs n = n) ∨
      ∃ r ∈ runs, r.Covers n ∧ partner runs n = r.image n := by
  unfold partner
  split
  · rename_i r found
    have on := List.find?_some found
    simp only [Bool.and_eq_true, decide_eq_true_eq] at on
    exact .inr ⟨r, List.mem_of_find?_eq_some found, ⟨on.1.1, on.1.2, on.2⟩, rfl⟩
  · rename_i none
    refine .inl ⟨fun r hr on => ?_, rfl⟩
    have off := List.find?_eq_none.1 none r hr
    simp only [Bool.and_eq_true, decide_eq_true_eq, not_and] at off
    exact off ⟨on.1, on.2.1⟩ on.2.2

/-! ## 2. The tables -/

/-- The capital letter with a point above, which becomes two characters. -/
def dottedCapital : CaseRun :=
  ⟨0x130, 0x130, 1, 0⟩

/-- The blank characters, in runs. -/
def blankRuns : List CaseRun :=
  [⟨0x09, 0x0D, 1, 0⟩, ⟨0x20, 0x20, 1, 0⟩, ⟨0x85, 0x85, 1, 0⟩, ⟨0xA0, 0xA0, 1, 0⟩, ⟨0x1680, 0x1680, 1, 0⟩,
    ⟨0x2000, 0x200A, 1, 0⟩, ⟨0x2028, 0x2029, 1, 0⟩, ⟨0x202F, 0x202F, 1, 0⟩, ⟨0x205F, 0x205F, 1, 0⟩,
    ⟨0x3000, 0x3000, 1, 0⟩]

/-- Code points that no character has. -/
def surrogates : CaseRun :=
  ⟨0xD800, 0xDFFF, 1, 0⟩

/-- **Small letters are not moved,** and they are characters. The runs are a finite table, and their images
are compared with all of them. -/
theorem lowerRuns_miss : ∀ r ∈ lowerRuns,
    (∀ r' ∈ dottedCapital :: surrogates :: lowerRuns, r.misses r' = true) ∧ r.image r.last < 0x110000 := by
  have table : (lowerRuns.all fun r => ((dottedCapital :: surrogates :: lowerRuns).all r.misses) &&
      Nat.blt (r.image r.last) 0x110000) = true := by
    decide +kernel
  simpa only [List.all_eq_true, Bool.and_eq_true, Nat.blt_eq] using table

/-- **Neither capital nor small letters are blank.** Both tables are finite and their runs are compared pair
by pair. -/
theorem lowerRuns_miss_blankRuns : ∀ r ∈ lowerRuns, ∀ b ∈ blankRuns,
    r.misses b = true ∧ r.unmoved.misses b = true := by
  have table : (lowerRuns.all fun r => blankRuns.all fun b => r.misses b && r.unmoved.misses b) =
      true := by
    decide +kernel
  simpa only [List.all_eq_true, Bool.and_eq_true] using table

/-- The blanks, as runs of code points. -/
theorem isBlank_iff (c : Char) : isBlank c = true ↔ ∃ b ∈ blankRuns, b.Covers c.toNat := by
  simp only [isBlank, blankRuns, CaseRun.Covers, List.mem_cons, List.not_mem_nil, or_false,
    exists_eq_or_imp, exists_eq_left, Bool.or_eq_true, Bool.and_eq_true, decide_eq_true_eq, beq_iff_eq,
    Nat.mod_one, and_true]
  omega

/-- A character in a run that misses the blanks is none. -/
theorem not_isBlank_of_misses {r : CaseRun} {n : Nat} {c : Char}
    (h : ∀ b ∈ blankRuns, r.misses b = true) (on : r.Covers n) (here : c.toNat = r.image n) :
    isBlank c = false := by
  refine Bool.eq_false_iff.2 fun blank => ?_
  obtain ⟨b, hb, covers⟩ := (isBlank_iff c).1 blank
  rw [here] at covers
  exact CaseRun.not_covers_image (h b hb) on covers

/-! ## 3. Characters -/

/-- A code point is that of no letter that is moved. -/
def Settled (n : Nat) : Prop :=
  ∀ r ∈ dottedCapital :: lowerRuns, ¬ r.Covers n

instance (n : Nat) : Decidable (Settled n) :=
  decidable_of_iff ((dottedCapital :: lowerRuns).all fun r => !decide (r.Covers n)) (by
    simp only [Settled, List.all_eq_true, Bool.not_eq_true', decide_eq_false_iff_not])

section Moved

variable {r : CaseRun} {n : Nat} (hr : r ∈ lowerRuns) (on : r.Covers n)
include hr on

/-- What a letter is moved to is not moved again. -/
theorem settled_image : Settled (r.image n) := by
  intro r' hr'
  have among : r' ∈ dottedCapital :: surrogates :: lowerRuns :=
    (List.sublist_cons_self _ _).cons_cons _ |>.subset hr'
  exact CaseRun.not_covers_image ((lowerRuns_miss r hr).1 r' among) on

/-- A small letter is a character, so it has the code point that it was made from. -/
theorem toNat_ofNat_image : (Char.ofNat (r.image n)).toNat = r.image n := by
  have outside := CaseRun.not_covers_image ((lowerRuns_miss r hr).1 surrogates (by simp)) on
  have below := (lowerRuns_miss r hr).2
  have valid : (r.image n).isValidChar := by
    have last := on.2.1
    simp only [CaseRun.Covers, surrogates, Nat.mod_one, and_true] at outside
    simp only [CaseRun.image] at *
    simp only [Nat.isValidChar]
    omega
  rw [Char.ofNat, dif_pos valid]
  rfl

/-- No letter that is moved is a blank, nor is what it is moved to. -/
theorem not_isBlank_moved {c : Char} (here : c.toNat = n) :
    isBlank c = false ∧ isBlank (Char.ofNat (r.image n)) = false := by
  have misses := lowerRuns_miss_blankRuns r hr
  constructor
  · have unmoved : r.unmoved.image n = n := by simp [CaseRun.image, CaseRun.unmoved]
    exact not_isBlank_of_misses (fun b hb => (misses b hb).2) (show r.unmoved.Covers n from on)
      (here.trans unmoved.symm)
  · exact not_isBlank_of_misses (fun b hb => (misses b hb).1) on (toNat_ofNat_image hr on)

end Moved

/-- The letters without accents are in the table like all others. -/
theorem lowerChar_eq_mapCase (c : Char) : lowerChar c = mapCase lowerExpansions lowerRuns c := by
  have table : ∀ n < 0x80, mapCase lowerExpansions lowerRuns (Char.ofNat n) = [(Char.ofNat n).toLower] := by
    decide +kernel
  unfold lowerChar
  split
  · rename_i small
    have here := table c.toNat small
    rw [Char.ofNat_toNat] at here
    exact here.symm
  · rfl

/-- A character stays, or is the one that becomes two, or is moved. -/
theorem lowerChar_cases (c : Char) :
    (Settled c.toNat ∧ lowerChar c = [c]) ∨ (c = 'İ' ∧ lowerChar c = ['i', '̇']) ∨
      ∃ r ∈ lowerRuns, r.Covers c.toNat ∧ lowerChar c = [Char.ofNat (r.image c.toNat)] := by
  rw [lowerChar_eq_mapCase]
  by_cases capital : c = 'İ'
  · subst capital
    exact .inr (.inl ⟨rfl, rfl⟩)
  have other : c.toNat ≠ 0x130 := fun h => capital (Char.toNat_inj.1 h)
  have single : mapCase lowerExpansions lowerRuns c = [Char.ofNat (partner lowerRuns c.toNat)] := by
    simp [mapCase, lowerExpansions, Ne.symm other]
  rw [single]
  rcases partner_cases lowerRuns c.toNat with ⟨off, stays⟩ | ⟨r, hr, on, moves⟩
  · refine .inl ⟨List.forall_mem_cons.2 ⟨fun on => ?_, off⟩, by rw [stays, Char.ofNat_toNat]⟩
    exact other (Nat.le_antisymm on.2.1 on.1)
  · exact .inr (.inr ⟨r, hr, on, by rw [moves]⟩)

/-- **A character in lower case:** it is one that stays as it is, and it is blank if the character was. The
dotted capital I is the only one that becomes two characters. -/
theorem lowerChar_spec (c : Char) :
    lowerChar c ≠ [] ∧ ∀ d ∈ lowerChar c, Settled d.toNat ∧ isBlank d = isBlank c := by
  rcases lowerChar_cases c with ⟨settled, stays⟩ | ⟨rfl, two⟩ | ⟨r, hr, on, moves⟩
  · rw [stays]
    exact ⟨List.cons_ne_nil _ _, by simpa using settled⟩
  · rw [two]
    refine ⟨List.cons_ne_nil _ _, List.forall_mem_cons.2 ⟨?_, List.forall_mem_singleton.2 ?_⟩⟩
    · decide +kernel
    · decide +kernel
  · rw [moves]
    refine ⟨List.cons_ne_nil _ _, fun d hd => ?_⟩
    obtain rfl := List.mem_singleton.1 hd
    obtain ⟨before, after⟩ := not_isBlank_moved hr on rfl
    rw [toNat_ofNat_image hr on, before, after]
    exact ⟨settled_image hr on, rfl⟩

/-- A settled character is its own lower case. -/
theorem lowerChar_of_settled {c : Char} (h : Settled c.toNat) : lowerChar c = [c] := by
  rcases lowerChar_cases c with ⟨-, stays⟩ | ⟨rfl, -⟩ | ⟨r, hr, on, -⟩
  · exact stays
  · exact absurd h (by decide +kernel)
  · exact absurd on (h r (List.mem_cons_of_mem _ hr))

/-! ## 4. Texts -/

/-- One character of a text in lower case, sigma included. -/
theorem lowerFrom_cons (before cs : List Char) (c : Char) : ∃ here,
    lowerFrom before (c :: cs) = here ++ lowerFrom (c :: before) cs ∧ here ≠ [] ∧
      ∀ d ∈ here, Settled d.toNat ∧ isBlank d = isBlank c := by
  by_cases sigma : c = 'Σ'
  · subst sigma
    rw [lowerFrom, if_pos rfl]
    refine ⟨_, rfl, List.cons_ne_nil _ _, fun d hd => ?_⟩
    obtain rfl := List.mem_singleton.1 hd
    split <;> decide +kernel
  · rw [lowerFrom, if_neg sigma]
    exact ⟨_, rfl, lowerChar_spec c⟩

/-- A text in lower case has settled characters only. The final sigma is chosen by the characters around it,
and both of its forms are settled. -/
theorem settled_of_mem_lowerFrom {before cs : List Char} {d : Char} (h : d ∈ lowerFrom before cs) :
    Settled d.toNat := by
  induction cs generalizing before with
  | nil => cases h
  | cons c cs ih =>
    obtain ⟨here, split, -, settled⟩ := lowerFrom_cons before cs c
    rw [split] at h
    rcases List.mem_append.1 h with h | h
    · exact (settled d h).1
    · exact ih h

/-- A text of settled characters stays as it is. -/
theorem lowerFrom_of_settled {before cs : List Char} (h : ∀ c ∈ cs, Settled c.toNat) :
    lowerFrom before cs = cs := by
  induction cs generalizing before with
  | nil => rfl
  | cons c cs ih =>
    obtain ⟨settled, rest⟩ := List.forall_mem_cons.1 h
    have small : c ≠ 'Σ' := by
      rintro rfl
      exact absurd settled (by decide +kernel)
    rw [lowerFrom, if_neg small, lowerChar_of_settled settled, ih rest]
    rfl

/-- **A text in lower case stays as it is in lower case.** None of its characters is moved any more, and
none is a capital sigma, for which the place in the word would matter. -/
theorem lower_lower (s : String) : lower (lower s) = lower s := by
  have settled : ∀ d ∈ lowerFrom [] s.toList, Settled d.toNat := fun d => settled_of_mem_lowerFrom
  simp only [lower, String.toList_ofList, lowerFrom_of_settled settled]

/-! ## 5. Blanks around a text -/

/-- No blank stands in front of a text and none behind it. -/
def Trimmed (cs : List Char) : Prop :=
  cs.head?.any isBlank = false ∧ cs.getLast?.any isBlank = false

/-- What trimming leaves is trimmed. -/
theorem trimmed_trimChars (cs : List Char) : Trimmed (trimChars cs) := by
  constructor
  · obtain ⟨ds, split, -⟩ := exists_append_dropEndWhile isBlank (cs.dropWhile isBlank)
    have front := List.head?_dropWhile_not isBlank cs
    rw [split] at front
    cases rest : trimChars cs with
    | nil => rfl
    | cons c cs' =>
      rw [trimChars] at rest
      rw [rest] at front
      simpa using front
  · have back := getLast?_trimChars cs
    cases last : (trimChars cs).getLast? with
    | none => rfl
    | some c => exact back c last

/-- Trimming leaves a text as it is if it has no blanks at its ends. -/
theorem trimChars_eq_self_iff (cs : List Char) : trimChars cs = cs ↔ Trimmed cs := by
  constructor
  · intro h
    rw [← h]
    exact trimmed_trimChars cs
  · rintro ⟨front, back⟩
    refine trimChars_eq_self (fun c hc => ?_) fun c hc => ?_
    · rwa [Option.mem_def.1 hc] at front
    · rwa [Option.mem_def.1 hc] at back

theorem trim_eq_self_iff (s : String) : trim s = s ↔ Trimmed s.toList := by
  rw [← trimChars_eq_self_iff, ← String.toList_inj, trim, String.toList_ofList]

/-- Trimming twice is trimming once. -/
theorem trim_trim (s : String) : trim (trim s) = trim s := by
  rw [trim_eq_self_iff, trim, String.toList_ofList]
  exact trimmed_trimChars _

/-- A text begins with a blank in lower case if it does so as it is. -/
theorem head?_lowerFrom (before cs : List Char) :
    (lowerFrom before cs).head?.any isBlank = cs.head?.any isBlank := by
  cases cs with
  | nil => rfl
  | cons c cs =>
    obtain ⟨here, split, nonempty, blank⟩ := lowerFrom_cons before cs c
    obtain ⟨d, here, rfl⟩ := List.exists_cons_of_ne_nil nonempty
    rw [split]
    exact (blank d List.mem_cons_self).2

/-- And it ends with one if it does so as it is. -/
theorem getLast?_lowerFrom (before cs : List Char) :
    (lowerFrom before cs).getLast?.any isBlank = cs.getLast?.any isBlank := by
  induction cs generalizing before with
  | nil => rfl
  | cons c cs ih =>
    obtain ⟨here, split, nonempty, blank⟩ := lowerFrom_cons before cs c
    rw [split, List.getLast?_append]
    cases cs with
    | nil =>
      obtain ⟨d, last⟩ := List.getLast?_isSome.2 nonempty |> Option.isSome_iff_exists.1
      rw [lowerFrom, List.getLast?_nil, Option.none_or, last]
      exact (blank d (List.mem_of_getLast? last)).2
    | cons c' cs' =>
      obtain ⟨here', split', nonempty', -⟩ := lowerFrom_cons (c :: before) cs' c'
      have more : (lowerFrom (c :: before) (c' :: cs')).getLast?.isSome = true := by
        rw [List.getLast?_isSome, split']
        exact List.append_ne_nil_of_left_ne_nil nonempty' _
      rw [Option.or_of_isSome more, ih, List.getLast?_cons_cons]

/-- **Lower case neither makes nor removes blanks around a text.** Only the ends of the text matter, and
they are blank in lower case if and only if they were before. -/
theorem trim_lower_eq_self_iff (s : String) : trim (lower s) = lower s ↔ trim s = s := by
  simp only [trim_eq_self_iff, Trimmed, lower, String.toList_ofList, head?_lowerFrom,
    getLast?_lowerFrom]

/-! ## 6. Texts of ASCII characters -/

/-- All characters of a text are ASCII characters. -/
def IsAscii (s : String) : Prop :=
  ∀ c ∈ s.toList, c.toNat < 0x80

instance (s : String) : Decidable (IsAscii s) :=
  decidable_of_iff (s.toList.all fun c => Nat.blt c.toNat 0x80) (by
    simp only [IsAscii, List.all_eq_true, Nat.blt_eq])

/-- Two texts differ at most in which of their ASCII letters are capital. -/
def SameLetters (s t : String) : Prop :=
  s.toList.map Char.toLower = t.toList.map Char.toLower

/-- Lower case leads neither into the first 128 characters nor out of them. -/
theorem toNat_toLower_lt_iff (c : Char) : c.toLower.toNat < 0x80 ↔ c.toNat < 0x80 := by
  have table : ∀ n < 0x80, (Char.ofNat n).toLower.toNat < 0x80 := by
    decide +kernel
  constructor
  · intro small
    by_contra large
    have stays : c.toLower = c := by
      refine dif_neg fun capital => large (Nat.lt_of_le_of_lt (UInt32.le_iff_toNat_le.1 capital.2) ?_)
      decide
    exact large (stays ▸ small)
  · intro small
    have here := table c.toNat small
    rwa [Char.ofNat_toNat] at here

/-- Texts of the same letters are made of those characters together. -/
theorem SameLetters.isAscii {s t : String} (same : SameLetters s t) (h : IsAscii t) : IsAscii s := by
  intro c hc
  have among : c.toLower ∈ t.toList.map Char.toLower := same ▸ List.mem_map_of_mem hc
  obtain ⟨d, hd, eq⟩ := List.mem_map.1 among
  rw [← toNat_toLower_lt_iff, ← eq, toNat_toLower_lt_iff]
  exact h d hd

/-- A text of those characters is lowered letter by letter. -/
theorem lowerFrom_of_ascii {before cs : List Char} (h : ∀ c ∈ cs, c.toNat < 0x80) :
    lowerFrom before cs = cs.map Char.toLower := by
  induction cs generalizing before with
  | nil => rfl
  | cons c cs ih =>
    obtain ⟨small, rest⟩ := List.forall_mem_cons.1 h
    have other : c ≠ 'Σ' := by
      rintro rfl
      exact absurd small (by decide)
    rw [lowerFrom, if_neg other, lowerChar, if_pos small, ih rest]
    rfl

/-- **Which letters are capital makes no difference in lower case.** That is said of texts in ASCII, where
each letter is looked at by itself. -/
theorem SameLetters.lower_eq {s t : String} (same : SameLetters s t) (h : IsAscii t) :
    lower s = lower t := by
  rw [lower, lower, lowerFrom_of_ascii h, lowerFrom_of_ascii (same.isAscii h), same]

end BlockConfig.Text
