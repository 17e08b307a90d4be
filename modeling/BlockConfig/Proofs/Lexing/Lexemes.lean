import BlockConfig.Node.Printer
import BlockConfig.Proofs.Lexing.Cutting

/-!
Lexemes in a longer text.

Each kind of lexeme is read back from the front of a text if what stands behind it cannot be mistaken
for more of it. Names and numbers ask for the most: no identifier character, and no point with a
digit behind it (`Loose`). A string ends where its mark does, provided that the braces of its holes
are closed by counting; that is how the lexer finds the end of a hole and how the printer knows where
to escape (`closesHoles`).
-/

set_option autoImplicit false

namespace BlockConfig

open Text

/-! ## 1. What may follow -/

/-- What may stand behind a name or a number. -/
structure Loose (rest : List Char) : Prop where
  name : ∀ c ∈ rest.head?, Lexeme.isNameRest c = false
  point : ∀ d cs, rest = '.' :: d :: cs → d.isDigit = false

/-- A character that goes on neither a name nor a number is a loose place for what stands in front of it. -/
theorem loose_cons {c : Char} {cs : List Char} (h : Lexeme.isNameRest c = false) (hc : c ≠ '.') :
    Loose (c :: cs) where
  name := by simpa using h
  point d ds he := absurd (List.cons.inj he).1 hc

theorem loose_nil : Loose [] where
  name := by simp
  point d cs h := by simp at h

/-- What may stand behind a statement: the end of its line. -/
def Ends (rest : List Char) : Prop :=
  ∀ c ∈ rest.head?, c = '\n'

/-- At the end of a line everything in front of it has ended. -/
theorem Ends.loose {rest : List Char} (h : Ends rest) : Loose rest := by
  cases rest with
  | nil => exact loose_nil
  | cons c cs =>
    obtain rfl : c = '\n' := h c (by simp)
    exact loose_cons (by decide) (by decide)

/-- Nothing is taken from a text whose first character does not qualify. -/
theorem takeWhile_of_head {p : Char → Bool} {rest : List Char}
    (h : ∀ c ∈ rest.head?, p c = false) : rest.takeWhile p = [] ∧ rest.dropWhile p = rest := by
  cases rest with
  | nil => exact ⟨rfl, rfl⟩
  | cons c cs =>
    have hc : p c = false := h c (by simp)
    simp [hc]

/-- A run of characters that satisfy `p` ends where it ends. -/
theorem takeWhile_append {p : Char → Bool} {a b : List Char} (ha : ∀ c ∈ a, p c = true)
    (h : ∀ c ∈ b.head?, p c = false) : (a ++ b).takeWhile p = a ∧ (a ++ b).dropWhile p = b := by
  have hr := takeWhile_of_head h
  rw [List.takeWhile_append_of_pos ha, List.dropWhile_append_of_pos ha, hr.1, hr.2, List.append_nil]
  exact ⟨rfl, rfl⟩

namespace Lexeme

/-- A reader that reads on and puts something in front of what it gets. -/
theorem exists_of_map_fst (f : List Char → List Char) {o : Option (List Char × List Char)}
    {out rest : List Char} (h : (o.map fun p => (f p.1, p.2)) = some (out, rest)) :
    ∃ out', o = some (out', rest) ∧ out = f out' := by
  obtain ⟨⟨i, r⟩, hi, he⟩ := Option.map_eq_some_iff.1 h
  simp only [Prod.mk.injEq] at he
  obtain ⟨rfl, rfl⟩ := he
  exact ⟨i, hi, rfl⟩

theorem isNameRest_of_isNameStart {c : Char} (h : isNameStart c = true) : isNameRest c = true := by
  simp only [isNameStart, isNameRest, Char.isAlphanum, Bool.or_eq_true] at h ⊢
  exact h.imp .inl id

theorem isNameRest_of_isDigit {c : Char} (h : c.isDigit = true) : isNameRest c = true := by
  simp [isNameRest, Char.isAlphanum, h]

theorem not_isDigit_of_isNameRest {c : Char} (h : isNameRest c = false) : c.isDigit = false := by
  cases hd : c.isDigit with
  | false => rfl
  | true =>
    rw [isNameRest_of_isDigit hd] at h
    exact absurd h (by decide)

theorem bounds_of_isDigit {c : Char} (h : c.isDigit = true) : 48 ≤ c.toNat ∧ c.toNat ≤ 57 := by
  simpa [Char.isDigit, UInt32.le_iff_toNat_le] using h

theorem bounds_of_isAlpha {c : Char} (h : c.isAlpha = true) : 65 ≤ c.toNat ∧ c.toNat ≤ 122 := by
  rcases (Bool.or_eq_true c.isUpper c.isLower).mp h with h | h
  · have upper : 'A'.val ≤ c.val ∧ c.val ≤ 'Z'.val := of_decide_eq_true h
    have h1 : 65 ≤ c.toNat := UInt32.le_iff_toNat_le.1 upper.1
    have h2 : c.toNat ≤ 90 := UInt32.le_iff_toNat_le.1 upper.2
    omega
  · have lower : (decide ('a'.val ≤ c.val) && decide (c.val ≤ 'z'.val)) = true := h
    rw [Bool.and_eq_true, decide_eq_true_eq, decide_eq_true_eq] at lower
    have h1 : 97 ≤ c.toNat := UInt32.le_iff_toNat_le.1 lower.1
    have h2 : c.toNat ≤ 122 := UInt32.le_iff_toNat_le.1 lower.2
    omega

/-- A digit goes on a name but does not begin one; this is what tells names and numbers apart. -/
theorem not_isNameStart_of_isDigit {c : Char} (h : c.isDigit = true) : isNameStart c = false := by
  have h := bounds_of_isDigit h
  cases hs : isNameStart c with
  | false => rfl
  | true =>
    rw [isNameStart, Bool.or_eq_true, beq_iff_eq] at hs
    rcases hs with hs | rfl
    · -- Letters come after the digits.
      have hs := bounds_of_isAlpha hs
      omega
    · exact absurd h (by decide)

/-! ## 2. Words -/

/-- A word is read as far as it goes. Whether it is a keyword is seen from its text afterwards, and not
while it is read. -/
theorem scan_word {c : Char} {cs rest : List Char} (hc : isNameStart c = true)
    (hcs : ∀ d ∈ cs, isNameRest d = true) (hr : ∀ d ∈ rest.head?, isNameRest d = false) :
    scan c (cs ++ rest) =
      .ok ⟨wordKind (c :: cs), String.ofList (c :: cs), none, none, rest⟩ := by
  have hsharp : c ≠ '#' := by
    intro h
    rw [h] at hc
    exact absurd hc (by decide)
  have hall : ∀ d ∈ c :: cs, isNameRest d = true := by
    intro d hd
    rcases List.mem_cons.1 hd with rfl | hd
    · exact isNameRest_of_isNameStart hc
    · exact hcs d hd
  obtain ⟨h1, h2⟩ := takeWhile_append hall hr
  unfold scan
  rw [if_neg hsharp, if_pos hc, word, ← List.cons_append, h1, h2]
  rfl

/-! ## 3. Numbers -/

/-- The fraction of a number, with its point. -/
def IsFraction (cs : List Char) : Prop :=
  cs = [] ∨ ∃ d ds, cs = '.' :: d :: ds ∧ ∀ x ∈ d :: ds, x.isDigit = true

/-- The exponent of a number, with its mark. -/
def IsExponent (cs : List Char) : Prop :=
  cs = [] ∨ ∃ m sign d ds, cs = m :: (sign ++ d :: ds) ∧ isExponentMark m = true ∧
    (sign = [] ∨ sign = ['+'] ∨ sign = ['-']) ∧ ∀ x ∈ d :: ds, x.isDigit = true

/-- A text that is one number. -/
def IsNumber (cs : List Char) : Prop :=
  ∃ d ds f e, cs = d :: (ds ++ (f ++ e)) ∧ (∀ x ∈ d :: ds, x.isDigit = true) ∧ IsFraction f ∧
    IsExponent e

/-- The fraction of a number ends where the digits do. If it is empty, what follows must not look like the
beginning of one. -/
theorem fraction_append {f rest : List Char} (hf : IsFraction f)
    (hr : ∀ c ∈ rest.head?, c.isDigit = false)
    (hp : f = [] → ∀ d cs, rest = '.' :: d :: cs → d.isDigit = false) :
    fraction (f ++ rest) = (f, rest) := by
  rcases hf with rfl | ⟨d, ds, rfl, hd⟩
  · rw [List.nil_append, fraction.eq_def]
    split
    next d cs =>
      rw [if_neg]
      simp [hp rfl d cs rfl]
    next => rfl
  · obtain ⟨h1, h2⟩ := takeWhile_append (a := ds) (fun c hc => hd c (by simp [hc])) hr
    rw [List.cons_append, List.cons_append, fraction, if_pos (hd d (by simp)), h1, h2]

/-- The exponent of a number is read in full, sign included, in front of anything that would not go on a
name. The mark alone is no exponent and is left for what follows. -/
theorem exponent_append {e rest : List Char} (he : IsExponent e)
    (hr : ∀ c ∈ rest.head?, isNameRest c = false) : exponent (e ++ rest) = (e, rest) := by
  have hmark : ∀ c ∈ rest.head?, isExponentMark c = false := by
    intro c hc
    have h := hr c hc
    cases hm : isExponentMark c with
    | false => rfl
    | true =>
      simp only [isExponentMark, Bool.or_eq_true, beq_iff_eq] at hm
      rcases hm with rfl | rfl <;> exact absurd h (by decide)
  rcases he with rfl | ⟨m, sign, d, ds, rfl, hm, hs, hd⟩
  · match rest, hmark with
    | [], _ => rfl
    | [c], _ => rfl
    | c :: s :: [], hmark => simp [exponent, hmark c (by simp)]
    | c :: s :: x :: cs, hmark => simp [exponent, hmark c (by simp)]
  · obtain ⟨h1, h2⟩ := takeWhile_append (a := ds) (fun c hc => hd c (by simp [hc]))
      fun c hc => not_isDigit_of_isNameRest (hr c hc)
    have hdd : d.isDigit = true := hd d (by simp)
    rcases hs with rfl | rfl | rfl
    · simp [exponent, hm, hdd, h1, h2]
    · have : Char.isDigit '+' = false := by decide
      simp [exponent, hm, hdd, h1, h2, this]
    · have : Char.isDigit '-' = false := by decide
      simp [exponent, hm, hdd, h1, h2, this]

/-- What an exponent begins with, if there is one. -/
theorem IsExponent.head {e : List Char} (he : IsExponent e) (c : Char) (hc : c ∈ e.head?) :
    isExponentMark c = true := by
  rcases he with rfl | ⟨m, sign, d, ds, rfl, hm, -⟩
  · simp at hc
  · obtain rfl : m = c := by simpa using hc
    exact hm

/-- A number is read in full in front of a loose place. Its three parts are read one after the other, and
each of them ends where the next begins. -/
theorem scan_number {c : Char} {cs rest : List Char} (h : IsNumber (c :: cs)) (hr : Loose rest) :
    scan c (cs ++ rest) = .ok ⟨.number, String.ofList (c :: cs), none, none, rest⟩ := by
  obtain ⟨d, ds, f, e, he, hd, hf, hx⟩ := h
  obtain ⟨rfl, rfl⟩ := List.cons.inj he
  have hc : c.isDigit = true := hd c (by simp)
  have hcn : c ≠ '#' ∧ isNameStart c = false := by
    constructor
    · intro h
      rw [h] at hc
      exact absurd hc (by decide)
    · exact not_isNameStart_of_isDigit hc
  have hmark : ∀ x, isExponentMark x = true → x.isDigit = false ∧ x ≠ '.' := by
    intro x hm
    simp only [isExponentMark, Bool.or_eq_true, beq_iff_eq] at hm
    rcases hm with rfl | rfl <;> decide
  have hrd : ∀ x ∈ rest.head?, x.isDigit = false := fun x hx => not_isDigit_of_isNameRest (hr.name x hx)
  -- No digit and no point stands where the exponent begins.
  have her : (∀ x ∈ (e ++ rest).head?, x.isDigit = false) ∧
      ∀ x xs, e ++ rest = '.' :: x :: xs → x.isDigit = false := by
    cases e with
    | nil => exact ⟨hrd, hr.point⟩
    | cons m e =>
      have hm := hmark m (hx.head m (by simp))
      refine ⟨by simpa using hm.1, fun x xs he => absurd (List.cons.inj he).1 hm.2⟩
  have hfr : ∀ x ∈ (f ++ (e ++ rest)).head?, x.isDigit = false := by
    rcases hf with rfl | ⟨x, xs, rfl, -⟩
    · exact her.1
    · simp
  obtain ⟨h1, h2⟩ := takeWhile_append hd hfr
  unfold scan
  rw [if_neg hcn.1, if_neg (by simp [hcn.2]), if_pos hc, number]
  simp only [List.append_assoc, ← List.cons_append]
  rw [h1, h2, fraction_append hf her.1 fun _ => her.2, exponent_append hx hr.name]
  simp [plain]

/-! ## 4. Strings -/

/-- Whether all holes of a text are closed by counting braces, `depth` of which are open. -/
def closesHoles : Nat → List Char → Bool
  | depth, [] => depth == 0
  | depth + 1, c :: cs =>
    closesHoles (if c = '{' then depth + 2 else if c = '}' then depth else depth + 1) cs
  | 0, '$' :: '{' :: cs => closesHoles 1 cs
  | 0, _ :: cs => closesHoles 0 cs

/-- The three quotes. -/
theorem isQuote_cases {q : Char} (hq : isQuote q = true) : q = '"' ∨ q = '\'' ∨ q = '\x60' := by
  simp only [isQuote, Bool.or_eq_true, beq_iff_eq] at hq
  rcases hq with (hq | hq) | hq
  · exact .inl hq
  · exact .inr (.inl hq)
  · exact .inr (.inr hq)

/-- A quotation mark is no blank character. -/
theorem not_isBlank_of_isQuote {q : Char} (hq : isQuote q = true) : isBlank q = false := by
  rcases isQuote_cases hq with rfl | rfl | rfl <;> rfl

/-- A quotation mark is no gap between tokens. -/
theorem not_isGap_of_isQuote {q : Char} (hq : isQuote q = true) : isGap q = false := by
  rcases isQuote_cases hq with rfl | rfl | rfl <;> rfl

/-- A dollar sign does not close a string. -/
theorem dollar_ne_of_isQuote {q : Char} (hq : isQuote q = true) : '$' ≠ q := by
  rcases isQuote_cases hq with rfl | rfl | rfl <;> decide

/-- A quotation mark begins a string. -/
theorem scan_quote {q : Char} (hq : isQuote q = true) (cs : List Char) :
    scan q cs = Lexeme.string q cs := by
  have hne : q ≠ '#' ∧ isNameStart q = false ∧ q.isDigit = false := by
    rcases isQuote_cases hq with rfl | rfl | rfl <;> decide
  unfold scan
  rw [if_neg hne.1, if_neg (by simp [hne.2.1]), if_neg (by simp [hne.2.2]), if_pos hq]

/-- A backslash and the character behind it are read together, also if that character is the quote. -/
theorem stringBody_escape {q : Char} (hq : isQuote q = true) (e : Char) (cs : List Char) :
    stringBody q 0 ('\\' :: e :: cs) =
      (stringBody q 0 cs).map fun (out, rest) => (unescape e ++ out, rest) := by
  have hback : '\\' ≠ q := by
    rcases isQuote_cases hq with rfl | rfl | rfl <;> decide
  rw [stringBody.eq_def]
  simp [hback]

/-- A character that is neither the quote, nor a line end, nor a backslash, and that opens no hole, stands
for itself. -/
theorem stringBody_plain {q c : Char} (hc : c ≠ q ∧ c ≠ '\n' ∧ c ≠ '\\') {cs : List Char}
    (h : c = '$' → ∀ d ∈ cs.head?, d ≠ '{') :
    stringBody q 0 (c :: cs) = (stringBody q 0 cs).map fun (out, rest) => (c :: out, rest) := by
  by_cases hd : c = '$'
  · subst hd
    match cs, h rfl with
    | [], _ => simp [stringBody, hc.1]
    | d :: cs, h =>
      have hd : d ≠ '{' := h d (by simp)
      simp [stringBody, hc.1, hd]
  · rw [stringBody.eq_def]
    simp [hc.1, hc.2.1, hc.2.2, hd]

/-- A character that is escaped is read back. -/
theorem stringBody_escapeChar {q c : Char} (hq : isQuote q = true) {cs : List Char}
    (h : c = '$' → ∀ d ∈ cs.head?, d ≠ '{') :
    stringBody q 0 (escapeChar q c ++ cs) =
      (stringBody q 0 cs).map fun (out, rest) => (c :: out, rest) := by
  by_cases h1 : c = '\\'
  · rw [h1]
    exact stringBody_escape hq '\\' cs
  by_cases h2 : c = '\n'
  · rw [h2]
    exact stringBody_escape hq 'n' cs
  by_cases h3 : c = '\t'
  · rw [h3]
    exact stringBody_escape hq 't' cs
  by_cases h4 : c = '\r'
  · rw [h4]
    exact stringBody_escape hq 'r' cs
  have hc : escapeChar q c = if c = q then ['\\', c] else [c] := by
    simp [escapeChar, h1, h2, h3, h4]
  rw [hc]
  split
  next hcq =>
    have hu : unescape c = [c] := by
      rw [hcq]
      rcases isQuote_cases hq with rfl | rfl | rfl <;> rfl
    rw [List.cons_append, List.cons_append, List.nil_append, stringBody_escape hq, hu]
    rfl
  next hcq => exact stringBody_plain ⟨hcq, h2, h1⟩ h

/-- Escaping makes no brace. -/
theorem escapeFrom_head {q : Char} (hq : isQuote q = true) {cs : List Char}
    (h : ∀ c ∈ cs.head?, c ≠ '{') (rest : List Char) :
    ∀ c ∈ (escapeFrom q 0 cs ++ q :: rest).head?, c ≠ '{' := by
  have hqb : q ≠ '{' := by
    rcases isQuote_cases hq with rfl | rfl | rfl <;> decide
  have hchar : ∀ c cs, c ≠ '{' → ∀ d ∈ (escapeChar q c ++ cs).head?, d ≠ '{' := by
    intro c cs hc
    unfold escapeChar
    repeat' split
    all_goals simp [hc]
  rw [escapeFrom.eq_def]
  split
  next => simpa using hqb
  next hd => exact absurd hd (by simp)
  next => simp
  next c cs _ _ =>
    rw [List.append_assoc]
    exact hchar c _ (h c (by simp))

/-- **What is escaped is read back,** up to the mark that closes the string. Inside a hole nothing is
escaped, so the holes have to be closed when the text ends. -/
theorem stringBody_escapeFrom {q : Char} (hq : isQuote q = true) {depth : Nat} {cs : List Char}
    (h : closesHoles depth cs = true) (rest : List Char) :
    stringBody q depth (escapeFrom q depth cs ++ q :: rest) = some (cs, rest) := by
  fun_induction escapeFrom q depth cs with
  | case1 depth =>
    obtain rfl : depth = 0 := by simpa [closesHoles] using h
    rw [List.nil_append, stringBody.eq_def]
    simp
  | case2 depth c cs ih =>
    rw [closesHoles] at h
    rw [List.cons_append, stringBody, ih h]
    rfl
  | case3 cs ih =>
    rw [closesHoles] at h
    have hi := ih h
    simp [stringBody, dollar_ne_of_isQuote hq, hi]
  | case4 c cs hno ih =>
    rw [closesHoles.eq_4 _ _ hno] at h
    rw [List.append_assoc, stringBody_escapeChar hq, ih h]
    · rfl
    -- Behind a dollar sign that opens no hole nothing is written that begins with a brace.
    · rintro rfl
      refine escapeFrom_head hq ?_ rest
      intro d hd hbrace
      subst hbrace
      cases cs with
      | nil => simp at hd
      | cons x cs =>
        obtain rfl : x = '{' := by simpa using hd
        exact hno cs rfl rfl

/-- The characters of a text in quotes. -/
theorem toList_quoted (q : Char) (s : String) :
    (quoted q s).toList = q :: (escapeFrom q 0 s.toList ++ [q]) := by
  rw [quoted, escape, String.toList_append, String.toList_append, String.toList_ofList,
    String.toList_singleton]
  rfl

/-- A string is read back from its escaped form, if all of its holes are closed. Its holes were left as they
are by the escaping, and they are left as they are by the lexer too. -/
theorem scan_string {q : Char} (hq : isQuote q = true) {s : String}
    (h : closesHoles 0 s.toList = true) (rest : List Char) :
    scan q (escapeFrom q 0 s.toList ++ q :: rest) = .ok ⟨.str, s, none, some q, rest⟩ := by
  rw [scan_quote hq, string, stringBody_escapeFrom hq h]
  simp

/-! ## 5. Heredocs -/

/-- Whether a text can be the content of a heredoc with a tag: no line of it closes the heredoc, and
it does not end in a carriage return. -/
def FitsHeredoc (tag value : List Char) : Prop :=
  (∀ line ∈ splitOnChar '\n' value, closesHeredoc tag line = false) ∧
    ∀ c ∈ value.getLast?, c ≠ '\r'

/-- At a separator a text can be split before the rest is. -/
theorem splitOnChar_append (sep : Char) (a b : List Char) :
    splitOnChar sep (a ++ sep :: b) = splitOnChar sep a ++ splitOnChar sep b := by
  induction a with
  | nil => simp [splitOnChar]
  | cons c cs ih =>
    rw [List.cons_append, splitOnChar, splitOnChar, ih]
    split
    · rfl
    · cases h : splitOnChar sep cs with
      | nil => exact absurd h (splitOnChar_ne_nil sep cs)
      | cons piece pieces => rfl

/-- Joining the parts of a text restores it. -/
theorem joinWith_splitOnChar (sep : Char) (cs : List Char) :
    joinWith [sep] (splitOnChar sep cs) = cs := by
  induction cs with
  | nil => rfl
  | cons c cs ih =>
    rw [splitOnChar]
    cases h : splitOnChar sep cs with
    | nil => exact absurd h (splitOnChar_ne_nil sep cs)
    | cons piece pieces =>
      rw [h] at ih
      split
      next hc =>
        rw [joinWith.eq_3 _ _ _ (by simp), ih, hc]
        rfl
      next =>
        rw [consHead, ← ih]
        cases pieces with
        | nil => rfl
        | cons p ps => rfl

/-- A text without the separator is one part. -/
theorem splitOnChar_of_not_mem {sep : Char} {cs : List Char} (h : sep ∉ cs) :
    splitOnChar sep cs = [cs] := by
  induction cs with
  | nil => rfl
  | cons c cs ih =>
    have hc : c ≠ sep := fun hc => h (by simp [hc])
    have hcs : sep ∉ cs := fun hcs => h (by simp [hcs])
    rw [splitOnChar, if_neg hc, ih hcs]
    rfl

/-- Nothing is dropped from a text whose last character stays. -/
theorem dropEndWhile_of_getLast? {p : Char → Bool} {cs : List Char}
    (h : ∀ c ∈ cs.getLast?, p c = false) : dropEndWhile p cs = cs := by
  have hr : ∀ c ∈ cs.reverse.head?, p c = false := by
    rw [List.head?_reverse]
    exact h
  rw [dropEndWhile, (takeWhile_of_head hr).2, List.reverse_reverse]

/-- The first line that is the tag ends the content. -/
theorem heredoc_of_fits {tag value rest : List Char} (hn : '\n' ∉ tag)
    (ht : ∀ c ∈ tag.getLast?, c ≠ '\r') (h : FitsHeredoc tag value) (hr : Ends rest) :
    heredoc tag (value ++ '\n' :: (tag ++ rest)) =
      .ok ⟨.heredoc, String.ofList value, some (String.ofList tag), none, rest⟩ := by
  have hself : closesHeredoc tag tag = true := by
    have hd : dropEndWhile (· == '\r') tag = tag :=
      dropEndWhile_of_getLast? fun c hc => by simpa using ht c hc
    rw [closesHeredoc, hd]
    exact beq_self_eq_true tag
  -- The line of the tag is one of its own, whether it is the last one or not.
  obtain ⟨after, htag, hafter⟩ : ∃ after, splitOnChar '\n' (tag ++ rest) = tag :: after ∧
      after.flatMap ('\n' :: ·) = rest := by
    cases rest with
    | nil => exact ⟨[], by rw [List.append_nil, splitOnChar_of_not_mem hn], rfl⟩
    | cons c cs =>
      obtain rfl : c = '\n' := hr c rfl
      refine ⟨splitOnChar '\n' cs, ?_, flatMap_splitOnChar '\n' cs⟩
      rw [splitOnChar_append, splitOnChar_of_not_mem hn]
      rfl
  -- The lines are those of the content, the tag, and those behind it.
  have hlines : splitOnChar '\n' (value ++ '\n' :: (tag ++ rest)) =
      splitOnChar '\n' value ++ tag :: after := by
    rw [splitOnChar_append, htag]
  have hopen : ∀ line ∈ splitOnChar '\n' value, (!closesHeredoc tag line) = true := by
    intro line hl
    rw [h.1 line hl]
    rfl
  have hstop : (tag :: after).takeWhile (fun line => !closesHeredoc tag line) = [] ∧
      (tag :: after).dropWhile (fun line => !closesHeredoc tag line) = tag :: after := by
    constructor <;> simp [hself]
  have hlast : dropEndWhile (· == '\r') value = value :=
    dropEndWhile_of_getLast? fun c hc => by simpa using h.2 c hc
  rw [heredoc]
  dsimp only
  rw [hlines, List.dropWhile_append_of_pos hopen, hstop.2]
  dsimp only
  rw [List.takeWhile_append_of_pos hopen, hstop.1, List.append_nil, joinWith_splitOnChar, hlast,
    hafter]

/-- Two less-than signs open a heredoc if a tag follows. -/
theorem scan_less (text : List Char) :
    scan '<' ('<' :: text) = match heredocTag? text with
      | some (tag, body) => heredoc tag body
      | none => mark '<' ('<' :: text) :=
  rfl

/-- A text that can stand behind the two signs that open a heredoc: a word, which may be a keyword. -/
def IsTag (tag : List Char) : Prop :=
  ∃ c cs, tag = c :: cs ∧ isNameStart c = true ∧ ∀ d ∈ cs, isNameRest d = true

theorem IsTag.isNameRest {tag : List Char} (h : IsTag tag) : ∀ d ∈ tag, isNameRest d = true := by
  obtain ⟨c, cs, rfl, hc, hcs⟩ := h
  intro d hd
  rcases List.mem_cons.1 hd with rfl | hd
  · exact isNameRest_of_isNameStart hc
  · exact hcs d hd

/-- The tag of a heredoc is the rest of the line on which it begins. -/
theorem heredocTag?_of_isTag {tag : List Char} (h : IsTag tag) (body : List Char) :
    heredocTag? (tag ++ '\n' :: body) = some (tag, body) := by
  obtain ⟨h1, h2⟩ := takeWhile_append (b := '\n' :: body) h.isNameRest (by
    intro d hd
    obtain rfl : '\n' = d := by simpa using hd
    decide)
  obtain ⟨c, cs, rfl, hc, -⟩ := h
  rw [List.cons_append, heredocTag?]
  dsimp only
  rw [if_pos hc, ← List.cons_append, h1, h2]
  simp

/-- A heredoc is read back from its tag, its lines and its tag again. No line of its text may look like the
closing one, which is what it means to fit. -/
theorem scan_heredoc {tag value rest : List Char} (ht : IsTag tag) (h : FitsHeredoc tag value)
    (hr : Ends rest) :
    scan '<' ('<' :: (tag ++ '\n' :: (value ++ '\n' :: (tag ++ rest)))) =
      .ok ⟨.heredoc, String.ofList value, some (String.ofList tag), none, rest⟩ := by
  have hn : '\n' ∉ tag := fun hm => absurd (ht.isNameRest _ hm) (by decide)
  have hlast : ∀ d ∈ tag.getLast?, d ≠ '\r' := by
    rintro d hd rfl
    exact absurd (ht.isNameRest _ (List.mem_of_getLast? hd)) (by decide)
  rw [scan_less, heredocTag?_of_isTag ht]
  exact heredoc_of_fits hn hlast h hr

/-! ## 6. References -/

/-- Whether the braces of a text are closed in order, as far as a reference counts them. -/
def FitsReference (text : List Char) : Prop :=
  closeBraces 0 (text ++ ['}']) = some (text, [])

/-- A region that is closed stays the same, however the text goes on behind it. -/
theorem closeBraces_append {depth : Nat} {cs inner rest : List Char}
    (h : closeBraces depth cs = some (inner, rest)) (more : List Char) :
    closeBraces depth (cs ++ more) = some (inner, rest ++ more) := by
  fun_induction closeBraces depth cs generalizing inner rest with
  | case1 => simp at h
  | case3 cs =>
    simp only [Option.some.injEq, Prod.mk.injEq] at h
    obtain ⟨rfl, rfl⟩ := h
    rfl
  | case2 _ _ ih | case4 _ _ ih =>
    obtain ⟨⟨i, r⟩, hi, he⟩ := Option.map_eq_some_iff.1 h
    simp only [Prod.mk.injEq] at he
    obtain ⟨rfl, rfl⟩ := he
    rw [List.cons_append, closeBraces, ih hi]
    rfl
  | case5 depth c cs h1 h2 h3 ih =>
    obtain ⟨i, hi, rfl⟩ := exists_of_map_fst (c :: ·) h
    rw [List.cons_append, closeBraces.eq_5 _ _ _ h1 h2 h3, ih hi]
    rfl

/-- A reference to the environment is read back up to the brace that closes it. The blanks around its text
are dropped by the lexer. -/
theorem scan_reference {text : List Char} (h : FitsReference text) (rest : List Char) :
    scan '$' ('{' :: (text ++ '}' :: rest)) =
      .ok ⟨.envRef, String.ofList (trimChars text), none, none, rest⟩ := by
  have hclose : closeBraces 0 (text ++ '}' :: rest) = some (text, rest) := by
    have h := closeBraces_append h rest
    rwa [List.append_assoc, List.nil_append] at h
  have hscan : scan '$' ('{' :: (text ++ '}' :: rest)) = reference (text ++ '}' :: rest) := rfl
  rw [hscan, reference, hclose]
  rfl

/-! ## 7. Comments -/

/-- Whether a text is one comment that a statement can be: up to the end of a line without carriage
returns before it, or between its marks. -/
def IsComment (text : List Char) : Prop :=
  ((∃ cs, text = '#' :: cs ∨ text = '-' :: '-' :: cs) ∧ '\n' ∉ text ∧
      ∀ c ∈ text.getLast?, c ≠ '\r') ∨
    ∃ inner, text = '/' :: '*' :: inner ∧ closeComment inner = some (inner, [])

/-- A comment that is closed stays the same, however the text goes on. -/
theorem closeComment_append {cs inner rest : List Char}
    (h : closeComment cs = some (inner, rest)) (more : List Char) :
    closeComment (cs ++ more) = some (inner, rest ++ more) := by
  fun_induction closeComment cs generalizing inner rest with
  | case1 => simp at h
  | case2 cs =>
    simp only [Option.some.injEq, Prod.mk.injEq] at h
    obtain ⟨rfl, rfl⟩ := h
    rfl
  | case3 c cs hno ih =>
    obtain ⟨i, hi, rfl⟩ := exists_of_map_fst (c :: ·) h
    have hno : ∀ ds, c = '*' → cs ++ more = '/' :: ds → False := by
      intro ds hc hds
      cases cs with
      | nil => simp [closeComment] at hi
      | cons x xs =>
        obtain rfl : x = '/' := (List.cons.inj hds).1
        exact hno xs hc rfl
    rw [List.cons_append, closeComment.eq_3 _ _ hno, ih hi]
    rfl

/-- A comment that goes to the end of its line contains no line end. A carriage return in front of that end
does not belong to it, which is why the text must not end in one. -/
theorem lineComment_append {text rest : List Char} (hn : '\n' ∉ text)
    (hl : ∀ c ∈ text.getLast?, c ≠ '\r') (hr : Ends rest) :
    lineComment (text ++ rest) = ⟨.comment, String.ofList text, none, none, rest⟩ := by
  obtain ⟨h1, h2⟩ := takeWhile_append (p := (· != '\n')) (a := text) (b := rest)
    (by
      intro c hc
      have hne : c ≠ '\n' := by
        rintro rfl
        exact hn hc
      simpa using hne)
    (by
      intro c hc
      rw [hr c hc]
      rfl)
  have hlast : dropEndWhile (· == '\r') text = text :=
    dropEndWhile_of_getLast? fun c hc => by simpa using hl c hc
  rw [lineComment, h1, h2, hlast]
  rfl

/-- A comment is read back as it is written, in both forms. -/
theorem scan_comment {c : Char} {cs rest : List Char} (h : IsComment (c :: cs)) (hr : Ends rest) :
    scan c (cs ++ rest) = .ok ⟨.comment, String.ofList (c :: cs), none, none, rest⟩ := by
  rcases h with ⟨⟨ds, he⟩, hn, hl⟩ | ⟨inner, he, hclose⟩
  · have hscan : scan c (cs ++ rest) = .ok (lineComment (c :: (cs ++ rest))) := by
      rcases he with he | he
      · obtain ⟨rfl, rfl⟩ := List.cons.inj he
        rfl
      · obtain ⟨rfl, rfl⟩ := List.cons.inj he
        rfl
    rw [hscan, ← List.cons_append, lineComment_append hn hl hr]
  · obtain ⟨rfl, rfl⟩ := List.cons.inj he
    have hscan : scan '/' ('*' :: inner ++ rest) = blockComment (inner ++ rest) := rfl
    rw [hscan, blockComment, closeComment_append hclose]
    rfl

end Lexeme

end BlockConfig
