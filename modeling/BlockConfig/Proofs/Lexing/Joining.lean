import BlockConfig.Proofs.Lexing.Spans
import BlockConfig.Proofs.Grammar.Moved

/-!
A text behind another one.

A text that ends with a line feed can be cut on its own: no lexeme in front of the line feed looks
at what is behind it. Comments, words and numbers are over before it, strings and block comments are
closed by their own marks, and a heredoc by a whole line. So the tokens of two such texts, one
behind the other, are those of the first and those of the second, moved down by the lines of the
first (`Token.list_append_of_endsLine`).
-/

set_option autoImplicit false

namespace BlockConfig

open Text

/-- The text ends with a line feed. -/
def EndsLine (cs : List Char) : Prop :=
  cs.getLast? = some '\n'

namespace EndsLine

variable {c : Char} {cs : List Char}

theorem mem (h : EndsLine cs) : '\n' ∈ cs :=
  List.mem_of_getLast? h

theorem ne_nil (h : EndsLine cs) : cs ≠ [] :=
  List.ne_nil_of_mem h.mem

/-- A text that goes on ends with the same line feed. -/
theorem tail (h : EndsLine (c :: cs)) (hc : c ≠ '\n') : EndsLine cs := by
  cases cs with
  | nil => exact absurd (Option.some.inj h) hc
  | cons d ds => exact List.getLast?_cons_cons.symm.trans h

/-- So does every end of the text but the empty one. -/
theorem of_suffix {r : List Char} (h : EndsLine cs) (hr : r <:+ cs) (hne : r ≠ []) :
    EndsLine r := by
  obtain ⟨a, rfl⟩ := hr
  exact (List.getLast?_append_of_ne_nil a hne).symm.trans h

end EndsLine

/-- A run that stops in a text stops there whatever is behind it. -/
theorem run_append {α : Type} {p : α → Bool} {cs : List α} (h : ∃ d ∈ cs, p d = false)
    (more : List α) : (cs ++ more).takeWhile p = cs.takeWhile p ∧
      (cs ++ more).dropWhile p = cs.dropWhile p ++ more := by
  induction cs with
  | nil => simp at h
  | cons c cs ih =>
    cases hc : p c with
    | false => simp [hc]
    | true =>
      have hcs : ∃ d ∈ cs, p d = false := by simpa [hc] using h
      simp [hc, ih hcs]

/-- The text is empty or begins with a blank character. -/
def Breaks (cs : List Char) : Prop :=
  ∀ c ∈ cs.head?, isBlank c = true

namespace Lexeme

variable {c : Char} {cs more : List Char}

/-- The lexeme with more text behind it. -/
def before (l : Lexeme) (more : List Char) : Lexeme :=
  { l with rest := l.rest ++ more }

/-! ## 1. Words and numbers

They are over in front of a blank character, wherever it comes from, and in front of a comment. -/

/-- No blank goes on a name. -/
theorem not_isNameRest_of_isBlank (h : isBlank c = true) : isNameRest c = false := by
  rw [Bool.eq_false_iff]
  intro hn
  -- The names lie in one range of characters, and no blank one lies there.
  have hrange : 48 ≤ c.toNat ∧ c.toNat ≤ 122 := by
    rw [isNameRest, Char.isAlphanum, Bool.or_eq_true, Bool.or_eq_true, beq_iff_eq] at hn
    rcases hn with (hn | hn) | rfl
    · have := bounds_of_isAlpha hn
      omega
    · have := bounds_of_isDigit hn
      omega
    · decide
  simp only [isBlank, Bool.or_eq_true, Bool.and_eq_true, decide_eq_true_eq, beq_iff_eq] at h
  omega

/-- Neither a word nor a number goes on with this text. -/
structure Stops (cs : List Char) : Prop where
  name : ∀ c ∈ cs.head?, isNameRest c = false
  point : ∀ c ∈ cs.head?, c ≠ '.'
  sign : ∀ s d ds, cs = s :: d :: ds → s = '+' ∨ s = '-' → d.isDigit = false

/-- A blank stops both words and numbers. -/
theorem stops_of_breaks (h : Breaks more) : Stops more where
  name c hc := not_isNameRest_of_isBlank (h c hc)
  point := by
    rintro _ hc rfl
    exact absurd (h '.' hc) (by decide)
  sign := by
    rintro s d ds rfl hs
    have hblank := h s rfl
    rcases hs with rfl | rfl <;> exact absurd hblank (by decide)

/-- In particular no digit follows. -/
theorem Stops.digit (h : Stops more) : ∀ c ∈ more.head?, c.isDigit = false :=
  fun c hc => not_isDigit_of_isNameRest (h.name c hc)

/-- A run stops in front of a character that is none of its own. -/
theorem run_stops {p : Char → Bool} (h : ∀ c ∈ more.head?, p c = false) (cs : List Char) :
    (cs ++ more).takeWhile p = cs.takeWhile p ∧
      (cs ++ more).dropWhile p = cs.dropWhile p ++ more := by
  by_cases hall : ∀ d ∈ cs, p d = true
  · obtain ⟨htake, hdrop⟩ := takeWhile_append hall h
    rw [htake, hdrop, List.takeWhile_eq_self_iff.2 hall, List.dropWhile_eq_nil_iff.2 hall]
    exact ⟨rfl, rfl⟩
  · exact run_append (by simpa using hall) more

/-- In front of such a text a fraction is read as without it, and the text is left over. -/
theorem fraction_stops (h : Stops more) (cs : List Char) :
    fraction (cs ++ more) = ((fraction cs).1, (fraction cs).2 ++ more) := by
  have hpoint : ∀ {c ds}, c ≠ '.' → fraction (c :: ds) = ([], c :: ds) := by
    intro c ds hc
    simp [fraction, hc]
  rcases cs with _ | ⟨c, _ | ⟨d, ds⟩⟩
  · rcases more with _ | ⟨b, bs⟩
    · rfl
    · exact hpoint (h.point b rfl)
  · rcases more with _ | ⟨b, bs⟩
    · rw [List.append_nil, List.append_nil]
    · by_cases hc : c = '.'
      · subst hc
        simp [fraction, h.digit b rfl]
      · rw [List.cons_append, hpoint hc, hpoint hc]
        rfl
  · by_cases hc : c = '.'
    · subst hc
      obtain ⟨htake, hdrop⟩ := run_stops h.digit ds
      cases hd : d.isDigit with
      | false => simp [fraction, hd]
      | true => simp [fraction, hd, htake, hdrop]
    · rw [List.cons_append, hpoint hc, hpoint hc]
      rfl

/-- An exponent too. The mark may be the last character, or the sign behind it; then one has to look into
the text that follows, where no digit is found. -/
theorem exponent_stops (h : Stops more) (cs : List Char) :
    exponent (cs ++ more) = ((exponent cs).1, (exponent cs).2 ++ more) := by
  have hmark : ∀ c ∈ more.head?, isExponentMark c = false := by
    intro c hc
    rw [Bool.eq_false_iff]
    intro he
    have hname := h.name c hc
    rcases (by simpa [isExponentMark] using he : c = 'e' ∨ c = 'E') with rfl | rfl
    · exact absurd hname (by decide)
    · exact absurd hname (by decide)
  -- An exponent is recognised by three characters, so texts that are shorter look at what follows.
  rcases cs with _ | ⟨e, _ | ⟨s, _ | ⟨d, ds⟩⟩⟩
  · rcases more with _ | ⟨b, _ | ⟨b', bs⟩⟩
    · rfl
    · rfl
    · rcases bs with _ | ⟨b'', bs⟩ <;> simp [exponent, hmark b rfl]
  · rcases more with _ | ⟨b, _ | ⟨b', bs⟩⟩
    · rfl
    · simp [exponent, h.digit b rfl]
    · have hsign : (b == '+' || b == '-') = true → b'.isDigit = false := by
        simpa using h.sign b b' bs rfl
      cases hb : b == '+' || b == '-' with
      | false => simp [exponent, h.digit b rfl, hb]
      | true => simp [exponent, h.digit b rfl, hsign hb]
  · rcases more with _ | ⟨b, bs⟩
    · rw [List.append_nil, List.append_nil]
    · by_cases hs : (isExponentMark e && s.isDigit) = true
      · have hb := h.digit b rfl
        simp only [List.cons_append, List.nil_append, exponent, if_pos hs, List.takeWhile_nil,
          List.dropWhile_nil, List.takeWhile_cons_of_neg (Bool.eq_false_iff.1 hb),
          List.dropWhile_cons_of_neg (Bool.eq_false_iff.1 hb)]
      · simp only [List.cons_append, List.nil_append, exponent, if_neg hs, h.digit b rfl,
          Bool.and_false, Bool.false_eq_true, if_false]
  · obtain ⟨htake, hdrop⟩ := run_stops h.digit (d :: ds)
    obtain ⟨htake', hdrop'⟩ := run_stops h.digit ds
    rw [List.cons_append] at htake hdrop
    by_cases hs : (isExponentMark e && s.isDigit) = true
    · simp only [List.cons_append, exponent, if_pos hs, htake, hdrop]
    · by_cases hd : (isExponentMark e && (s == '+' || s == '-') && d.isDigit) = true
      · simp only [List.cons_append, exponent, if_neg hs, if_pos hd, htake', hdrop']
      · simp only [List.cons_append, exponent, if_neg hs, if_neg hd]

/-- A word is read as without it. -/
theorem word_stops (h : Stops more) (cs : List Char) :
    word (cs ++ more) = (word cs).before more := by
  obtain ⟨htake, hdrop⟩ := run_stops h.name cs
  rw [word, htake, hdrop]
  rfl

/-- A number is read as without it. -/
theorem number_stops (h : Stops more) (cs : List Char) :
    number (cs ++ more) = (number cs).before more := by
  obtain ⟨htake, hdrop⟩ := run_stops h.digit cs
  simp only [number, htake, hdrop, fraction_stops h, exponent_stops h]
  rfl

/-- What stops a word or a number stops it in front of a line feed, whatever is behind that. -/
theorem before_of_stops {read : List Char → Lexeme}
    (hread : ∀ {more}, Stops more → ∀ cs, read (cs ++ more) = (read cs).before more)
    (h : EndsLine cs) (more : List Char) : read (cs ++ more) = (read cs).before more := by
  obtain ⟨front, rfl⟩ : ∃ front, cs = front ++ ['\n'] :=
    ⟨_, (List.dropLast_append_getLast? _ h).symm⟩
  have hline : ∀ more, Stops (['\n'] ++ more) := by
    refine fun more => stops_of_breaks ?_
    rintro c ⟨⟩
    rfl
  have hfront : read (front ++ ['\n']) = (read front).before ['\n'] := hread (hline []) front
  rw [List.append_assoc, hread (hline more), hfront, before, before, before, List.append_assoc]

/-! ## 2. Lexemes with a mark at their end -/

/-- A string is over behind its closing mark, whatever is behind that. -/
theorem exists_front_of_stringBody {q : Char} {depth : Nat} {cs out rest : List Char}
    (h : stringBody q depth cs = some (out, rest)) : ∃ front, cs = front ++ q :: rest ∧
      ∀ more, stringBody q depth (front ++ q :: more) = some (out, more) := by
  fun_induction stringBody q depth cs generalizing out rest with
  | case1 | case4 | case7 => simp at h
  | case3 cs =>
    simp only [Option.some.injEq, Prod.mk.injEq] at h
    obtain ⟨rfl, rfl⟩ := h
    refine ⟨[], rfl, fun more => ?_⟩
    rw [List.nil_append, stringBody.eq_def]
    simp
  | case2 depth c cs =>
    rename_i ih
    obtain ⟨out₁, h₁, rfl⟩ := exists_of_map_fst (c :: ·) h
    obtain ⟨front, rfl, hfront⟩ := ih h₁
    refine ⟨c :: front, rfl, fun more => ?_⟩
    rw [List.cons_append, stringBody]
    dsimp only
    rw [hfront]
    rfl
  | case5 cs hq =>
    rename_i hline ih
    obtain ⟨out₁, h₁, rfl⟩ := exists_of_map_fst ('$' :: '{' :: ·) h
    obtain ⟨front, rfl, hfront⟩ := ih h₁
    refine ⟨'$' :: '{' :: front, rfl, fun more => ?_⟩
    simp [stringBody, hq, hfront]
  | case6 cs hno hq =>
    rename_i hline ih
    obtain ⟨out₁, h₁, rfl⟩ := exists_of_map_fst ('$' :: ·) h
    obtain ⟨front, rfl, hfront⟩ := ih h₁
    refine ⟨'$' :: front, rfl, fun more => ?_⟩
    -- A brace behind the dollar sign would stand in the string or be its mark.
    have hhead : ∀ ds, front ++ q :: more ≠ '{' :: ds := by
      intro ds he
      cases front with
      | nil => exact hno rest (by rw [List.nil_append, (List.cons.inj he).1])
      | cons x xs => exact hno (xs ++ q :: rest) (by rw [List.cons_append, (List.cons.inj he).1])
    rw [List.cons_append, stringBody.eq_def]
    simp [hq, hfront]
  | case8 e cs hq =>
    rename_i hline hd ih
    obtain ⟨out₁, h₁, rfl⟩ := exists_of_map_fst (unescape e ++ ·) h
    obtain ⟨front, rfl, hfront⟩ := ih h₁
    refine ⟨'\\' :: e :: front, rfl, fun more => ?_⟩
    rw [List.cons_append, List.cons_append, stringBody.eq_def]
    simp [hq, hfront]
  | case9 c cs hq hline hdollar hback =>
    rename_i ih
    obtain ⟨out₁, h₁, rfl⟩ := exists_of_map_fst (c :: ·) h
    obtain ⟨front, rfl, hfront⟩ := ih h₁
    refine ⟨c :: front, rfl, fun more => ?_⟩
    rw [List.cons_append, stringBody.eq_def]
    simp [hq, hline, hdollar, hback, hfront]

/-- A string that is closed stays so with more text behind it. -/
theorem stringBody_before {q : Char} {depth : Nat} {cs out rest : List Char}
    (h : stringBody q depth cs = some (out, rest)) (more : List Char) :
    stringBody q depth (cs ++ more) = some (out, rest ++ more) := by
  obtain ⟨front, rfl, hfront⟩ := exists_front_of_stringBody h
  rw [List.append_assoc, List.cons_append]
  exact hfront _

/-! ## 3. Texts that end with a line feed -/

/-- A comment ends at the first line end, so it does not see what follows that. -/
theorem lineComment_before (h : '\n' ∈ cs) (more : List Char) :
    lineComment (cs ++ more) = (lineComment cs).before more := by
  obtain ⟨htake, hdrop⟩ := run_append (p := (· != '\n')) ⟨'\n', h, rfl⟩ more
  rw [lineComment, htake, hdrop]
  rfl

/-- The tag of a heredoc ends there, too. -/
theorem heredocTag?_before (h : '\n' ∈ cs) (more : List Char) :
    heredocTag? (cs ++ more) = (heredocTag? cs).map fun (tag, body) => (tag, body ++ more) := by
  obtain ⟨c, cs, rfl⟩ := List.exists_cons_of_ne_nil (List.ne_nil_of_mem h)
  obtain ⟨htake, hdrop⟩ := run_append (p := isNameRest) ⟨'\n', h, rfl⟩ more
  have hafter : '\n' ∈ (c :: cs).dropWhile isNameRest := by
    have hmem := h
    rw [← List.takeWhile_append_dropWhile (p := isNameRest) (l := c :: cs)] at hmem
    rcases List.mem_append.1 hmem with hmem | hmem
    · exact Bool.noConfusion (List.mem_takeWhile_imp hmem)
    · exact hmem
  obtain ⟨hline, hbody⟩ :=
    run_append (p := (· != '\n')) ⟨'\n', hafter, rfl⟩ more
  rw [List.cons_append] at htake hdrop
  unfold heredocTag?
  rw [List.cons_append]
  dsimp only
  rw [htake, hdrop, hline, hbody]
  split
  next hc =>
    cases hd : ((c :: cs).dropWhile isNameRest).dropWhile (· != '\n') with
    | nil => simpa using List.dropWhile_eq_nil_iff.1 hd _ hafter
    | cons x body =>
      dsimp only [List.cons_append]
      split <;> rfl
  next => rfl

/-- The line that closes a heredoc is not the empty one behind the last line feed. -/
theorem heredoc_before {tag body : List Char} {l : Lexeme} (htag : tag ≠ [])
    (h : heredoc tag body = .ok l) (hb : EndsLine body) (more : List Char) :
    heredoc tag (body ++ more) = .ok (l.before more) := by
  obtain ⟨front, rfl⟩ : ∃ front, body = front ++ '\n' :: [] :=
    ⟨_, (List.dropLast_append_getLast? _ hb).symm⟩
  obtain ⟨content, line, after, hlines, hcontent, hline, rfl⟩ := heredoc_ok_iff.1 h
  rw [splitOnChar_append] at hlines
  obtain ⟨after, rfl⟩ : ∃ ys, after = ys ++ [[]] := by
    rcases List.eq_nil_or_concat after with rfl | ⟨ys, y, rfl⟩
    · obtain rfl : line = [] := (List.append_singleton_inj.1 hlines).2.symm
      exact absurd (eq_of_beq hline).symm htag
    · rw [List.concat_eq_append, ← List.cons_append, ← List.append_assoc] at hlines
      obtain rfl : y = [] := (List.append_singleton_inj.1 hlines).2.symm
      exact ⟨ys, List.concat_eq_append⟩
  rw [← List.cons_append, ← List.append_assoc] at hlines
  refine heredoc_ok_iff.2 ⟨content, line, after ++ splitOnChar '\n' more, ?_, hcontent, hline, ?_⟩
  · rw [List.append_assoc, List.cons_append, List.nil_append, splitOnChar_append,
      (List.append_singleton_inj.1 hlines).1, List.append_assoc, List.cons_append]
  · simp only [before, List.flatMap_append, flatMap_splitOnChar, List.append_assoc]
    rfl

/-- A mark with a character behind it has been read in full. -/
theorem mark_before {l : Lexeme} (h : Lexeme.mark c cs = .ok l) (hcs : cs ≠ []) (more : List Char) :
    Lexeme.mark c (cs ++ more) = .ok (l.before more) := by
  rcases mark_ok_iff.1 h with ⟨k, hk, hno, rfl⟩ | ⟨d, ds, k, rfl, hk, rfl⟩
  · obtain ⟨d, ds, rfl⟩ := List.exists_cons_of_ne_nil hcs
    exact mark_ok_iff.2 (.inl ⟨k, hk, hno, rfl⟩)
  · exact mark_ok_iff.2 (.inr ⟨d, ds ++ more, k, rfl, hk, rfl⟩)

/-- An operator in front of a line feed is one, whatever is behind the line feed. -/
theorem MarkAt.before (h : MarkAt c cs) (hcs : EndsLine cs) (more : List Char) :
    MarkAt c (cs ++ more) := by
  obtain ⟨d, ds, rfl⟩ := List.exists_cons_of_ne_nil hcs.ne_nil
  refine ⟨h.sharp, h.name, h.digit, h.quote, ?_, ?_, ?_, ?_⟩
  · rintro es hc he
    exact h.dashes ds hc (by rw [(List.cons.inj he).1])
  · rintro es hc he
    exact h.comment ds hc (by rw [(List.cons.inj he).1])
  · rintro es hc he
    exact h.hole ds hc (by rw [(List.cons.inj he).1])
  · rintro es hc he
    obtain ⟨rfl, rfl⟩ := List.cons.inj he
    show heredocTag? (ds ++ more) = none
    rw [heredocTag?_before (hcs.tail (by decide)).mem, h.heredoc ds hc rfl]
    rfl

/-- **A lexeme in front of a line feed stays what it is,** whatever is behind the line feed. A word, a
number or a comment ends there at the latest, and what has a closing mark has been closed. -/
theorem scan_before {l : Lexeme} (h : scan c cs = .ok l) (hcs : EndsLine cs) (more : List Char) :
    scan c (cs ++ more) = .ok (l.before more) := by
  have hline : EndsLine (c :: cs) := by
    obtain ⟨d, ds, rfl⟩ := List.exists_cons_of_ne_nil hcs.ne_nil
    exact List.getLast?_cons_cons.trans hcs
  refine scan_ok_iff.2 ?_
  cases scan_ok_iff.1 h with
  | lineComment hc =>
    rw [← lineComment_before hline.mem more]
    refine .lineComment (hc.imp id ?_)
    rintro ⟨rfl, ds, rfl⟩
    exact ⟨rfl, ds ++ more, rfl⟩
  | word hc =>
    rw [← before_of_stops word_stops hline more]
    exact .word hc
  | number hc =>
    rw [← before_of_stops number_stops hline more]
    exact .number hc
  | string hq hs => exact .string hq (stringBody_before hs more)
  | blockComment hs => exact .blockComment (closeComment_append hs more)
  | reference hs => exact .reference (closeBraces_append hs more)
  | @heredoc ds tag body _ ht hs =>
    -- A heredoc needs a line behind its tag, and that line is complete.
    have hds : EndsLine ds := hcs.tail (by decide)
    obtain ⟨d, ts, htag, -⟩ := isName_of_heredocTag? ht
    have hne : tag ≠ [] := by
      rw [htag]
      exact List.cons_ne_nil d ts
    have hbody : body ≠ [] := by
      rintro rfl
      exact heredoc_nil_ne_ok hne l hs
    refine .heredoc ?_
      (heredoc_before hne hs (hds.of_suffix (suffix_of_heredocTag? ht) hbody) more)
    show heredocTag? (ds ++ more) = _
    rw [heredocTag?_before hds.mem, ht]
    rfl
  | mark hc hm => exact .mark (hc.before hcs more) (mark_before hm hcs.ne_nil more)

end Lexeme

/-! ## 4. Texts -/

namespace Token

/-- A text that is empty or ends with a line feed is cut into tokens that stand above its end, and
they stay what they are whatever is behind it. -/
theorem cuts_of_listFrom {p : Position} {cs : List Char} {ts : List Token}
    (h : listFrom p cs = .ok ts) (hcs : cs = [] ∨ EndsLine cs) :
    ∃ init, ts = init ++ [endOfInput (p.advance cs)] ∧ Cuts Anything p cs init ∧
      ∀ t ∈ init, t.pos.line < (p.advance cs).line := by
  have hrest : ∀ {a b : List Char}, a <:+ b → (b = [] ∨ EndsLine b) → a = [] ∨ EndsLine a := by
    rintro a b hsuffix (rfl | hb)
    · exact .inl (List.suffix_nil.1 hsuffix)
    · by_cases hnil : a = []
      · exact .inl hnil
      · exact .inr (hb.of_suffix hsuffix hnil)
  replace h := listed_of_listFrom h
  induction h with
  | nil p => exact ⟨[], rfl, cuts_nil, by simp⟩
  | @gap p c cs ts hc _ ih =>
    obtain ⟨init, rfl, hcuts, hlines⟩ := ih (hrest (List.suffix_cons c cs) hcs)
    refine ⟨init, rfl, ?_, hlines⟩
    have hgap : Cuts Anything p [c] [] := cuts_gap (List.forall_mem_singleton.2 hc)
    exact hgap.append hcuts fun _ _ => anything _
  | @lexeme p c taken l ts hc hl _ ih =>
    obtain ⟨init, rfl, hcuts, hlines⟩ :=
      ih (hrest ((List.suffix_append taken l.rest).trans (List.suffix_cons c _)) hcs)
    rw [← Position.advance_append, List.cons_append] at hlines ⊢
    -- A lexeme is no line feed, so the line ends behind it.
    have hline : EndsLine (taken ++ l.rest) := by
      refine (hcs.resolve_left (List.cons_ne_nil c _)).tail ?_
      rintro rfl
      exact Bool.noConfusion hc
    have hlexeme : Cuts (fun rest => ∃ more, rest = l.rest ++ more) p (c :: taken)
        [ofLexeme p l] := by
      refine cuts_lexeme hc ?_
      rintro _ ⟨more, rfl⟩
      rw [← List.append_assoc]
      exact Lexeme.scan_before hl hline more
    refine ⟨ofLexeme p l :: init, rfl, hlexeme.append hcuts fun rest _ => ⟨rest, rfl⟩, ?_⟩
    intro t ht
    rcases List.mem_cons.1 ht with rfl | ht
    · rw [Position.line_advance]
      exact Nat.lt_add_of_pos_right (List.count_pos_iff.2 (List.mem_cons_of_mem c hline.mem))
    · exact hlines t ht

/-- The tokens of a text are those it consists of and the end of input, and they stand on lines. -/
theorem ended_of_list {cs : List Char} {ts : List Token} (h : list cs = .ok ts) :
    ∃ init last, ts = init ++ [last] ∧ last.kind = .eof ∧ (∀ t ∈ init, t.kind ≠ .eof) ∧
      ∀ t ∈ ts, 1 ≤ t.pos.line := by
  obtain ⟨init, spans, rfl, hcovers⟩ := @covers_of_listFrom [] cs ts h
  have hline : ∀ cs, 1 ≤ (Position.behind cs).line := by
    intro cs
    rw [← Position.start_advance]
    exact Position.line_le_advance .start cs
  refine ⟨init, _, rfl, rfl, fun t ht => ?_, fun t ht => ?_⟩
  · obtain ⟨s, -, hread⟩ := hcovers.exists_readFrom ht
    exact hread.kind
  · rcases List.mem_append.1 ht with ht | ht
    · obtain ⟨s, -, hread⟩ := hcovers.exists_readFrom ht
      rw [hread.position]
      exact hline _
    · rw [List.mem_singleton.1 ht]
      exact hline _

end Token

/-- How far a text is moved by one in front of it that ends with a line feed. -/
def Displacement.below (cs : List Char) : Displacement :=
  ⟨cs.count '\n', 0⟩

/-- Behind a text that ends its line one stands below it, in the first column. -/
theorem Position.advance_of_endsLine {cs : List Char} (h : EndsLine cs) :
    start.advance cs = start.moved (.below cs) := by
  obtain ⟨front, rfl⟩ : ∃ front, cs = front ++ ['\n'] :=
    ⟨_, (List.dropLast_append_getLast? _ h).symm⟩
  have hcolumn : (start.advance (front ++ ['\n'])).column = 1 := by
    rw [advance_append]
    rfl
  have hline := line_advance start (front ++ ['\n'])
  generalize start.advance (front ++ ['\n']) = p at hcolumn hline
  obtain ⟨line, column⟩ := p
  dsimp only at hcolumn hline
  rw [hcolumn, hline]
  rfl

namespace Token

/-- **The tokens of two texts, one behind the other,** are those of the first and those of the
second, moved down by the lines of the first. -/
theorem list_append_of_endsLine {a b : List Char} {ta tb : List Token} (ha : list a = .ok ta)
    (hb : list b = .ok tb) (hline : EndsLine a) :
    ∃ init last, ta = init ++ [last] ∧ list (a ++ b) = .ok (init ++ tb.map (moved (.below a))) ∧
      ∀ t ∈ init, t.pos.line ≤ a.count '\n' := by
  obtain ⟨init, rfl, hcuts, hlines⟩ := cuts_of_listFrom ha (.inr hline)
  have hmoved := listFrom_moved (.below a) (p := .start) (Nat.le_refl 1) b
  rw [← Position.advance_of_endsLine hline, show listFrom .start b = .ok tb from hb] at hmoved
  refine ⟨init, _, rfl, ?_, fun t ht => ?_⟩
  · rw [list, hcuts.cut b (anything b), hmoved]
    rfl
  · have hlt := hlines t ht
    rw [Position.line_advance] at hlt
    have hstart : Position.start.line = 1 := rfl
    omega

end Token

end BlockConfig
