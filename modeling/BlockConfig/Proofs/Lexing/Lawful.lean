import BlockConfig.Proofs.Lexing.Pieces
import Mathlib.Data.List.TakeWhile

/-!
What tokens look like.

A token of a text is of one of the forms that the printer can write again: an identifier is spelled
like one, a comment ends where its text ends, no line of a heredoc closes it, and so on
(`Token.Lawful`). Strings are the exception. Their content may be anything, since escapes can put any
two characters beside each other, and the braces of a hole in it need not be closed.

There is one lemma for each reader of the lexer. What makes them more than a look at the reader is
that they speak of the text that was kept: blank characters around a reference, carriage returns
around a heredoc and in front of a line end are dropped, and what is left has to be read as before.
-/

set_option autoImplicit false

namespace BlockConfig

open Text

/-! ## 1. Texts without their ends -/

namespace Text

/-- A character that stays keeps all that is in front of it. -/
theorem dropEndWhile_cons {p : Char → Bool} {c : Char} (h : p c = false) (cs : List Char) :
    dropEndWhile p (c :: cs) = c :: dropEndWhile p cs := by
  rw [dropEndWhile, dropEndWhile, List.reverse_cons, List.dropWhile_append]
  split
  next hd =>
    rw [List.isEmpty_iff] at hd
    rw [hd]
    simp [h]
  next => rw [List.reverse_append]; rfl

/-- What is dropped at the end of a text does not stand at the end of what is left. -/
theorem getLast?_dropEndWhile {p : Char → Bool} (cs : List Char) :
    ∀ c ∈ (dropEndWhile p cs).getLast?, p c = false := by
  intro c hc
  rw [dropEndWhile, List.getLast?_reverse] at hc
  have h := List.head?_dropWhile_not p cs.reverse
  rw [Option.mem_def.1 hc] at h
  simpa using h

/-- A text is what is left of it and characters that are dropped. -/
theorem exists_append_dropEndWhile (p : Char → Bool) (cs : List Char) :
    ∃ ds, cs = dropEndWhile p cs ++ ds ∧ ∀ d ∈ ds, p d = true := by
  refine ⟨(cs.reverse.takeWhile p).reverse, (dropEndWhile_append_takeWhile p cs).symm, ?_⟩
  intro d hd
  exact List.mem_takeWhile_imp (List.mem_reverse.1 hd)

/-- What is dropped at the end may be dropped in advance. -/
theorem dropEndWhile_append {p : Char → Bool} {ds : List Char} (h : ∀ d ∈ ds, p d = true)
    (cs : List Char) : dropEndWhile p (cs ++ ds) = dropEndWhile p cs := by
  rw [dropEndWhile, List.reverse_append,
    List.dropWhile_append_of_pos fun d hd => h d (List.mem_reverse.1 hd), dropEndWhile]

/-- No characters are added by dropping some. -/
theorem mem_of_mem_dropEndWhile {p : Char → Bool} {cs : List Char} {c : Char}
    (h : c ∈ dropEndWhile p cs) : c ∈ cs := by
  obtain ⟨ds, hds, -⟩ := exists_append_dropEndWhile p cs
  rw [hds]
  exact List.mem_append_left ds h

end Text

/-! ## 2. One lemma for each reader -/

namespace Lexeme

/-- What is left of a line that begins as a comment is one: it holds no line end, and no carriage return at
its end. -/
theorem isComment_of_line {c : Char} {cs : List Char}
    (h : c = '#' ∨ c = '-' ∧ ∃ ds, cs = '-' :: ds) :
    IsComment (dropEndWhile (· == '\r') ((c :: cs).takeWhile (· != '\n'))) := by
  refine .inl ⟨?_, ?_, ?_⟩
  · rcases h with rfl | ⟨rfl, ds, rfl⟩
    · rw [List.takeWhile_cons_of_pos (by decide), dropEndWhile_cons (by decide)]
      exact ⟨_, .inl rfl⟩
    · rw [List.takeWhile_cons_of_pos (by decide), List.takeWhile_cons_of_pos (by decide),
        dropEndWhile_cons (by decide), dropEndWhile_cons (by decide)]
      exact ⟨_, .inr rfl⟩
  · intro hn
    have h := List.mem_takeWhile_imp (mem_of_mem_dropEndWhile hn)
    exact absurd h (by decide)
  · intro d hd
    have h := getLast?_dropEndWhile _ d hd
    rintro rfl
    exact absurd h (by decide)

/-- The text of a closed comment is a closed comment by itself. Its end is found at the first place where it
could be, so no earlier part of the text closes it. -/
theorem closeComment_self {cs inner rest : List Char} (h : closeComment cs = some (inner, rest)) :
    closeComment inner = some (inner, []) := by
  fun_induction closeComment cs generalizing inner rest with
  | case1 => simp at h
  | case2 cs =>
    simp only [Option.some.injEq, Prod.mk.injEq] at h
    obtain ⟨rfl, rfl⟩ := h
    rfl
  | case3 c cs hno ih =>
    obtain ⟨i, hi, rfl⟩ := exists_of_map_fst (c :: ·) h
    -- The first character of what is kept is that of the text.
    have hno : ∀ ds, c = '*' → i = '/' :: ds → False := by
      rintro ds rfl rfl
      cases cs with
      | nil => simp [closeComment] at hi
      | cons x xs =>
        by_cases hx : x = '/'
        · exact hno xs rfl (by rw [hx])
        · rw [closeComment.eq_def] at hi
          split at hi
          · simp at hi
          · simp_all
          · obtain ⟨⟨i', r'⟩, -, he'⟩ := Option.map_eq_some_iff.1 hi
            simp_all
    rw [closeComment.eq_3 _ _ hno, ih hi]
    rfl

/-- A word that is no keyword is an identifier. -/
theorem isIdentifier_of_word {c : Char} {cs : List Char} (hc : isNameStart c = true)
    (hk : (word (c :: cs)).kind = .ident) : IsIdentifier (word (c :: cs)).literal := by
  have hname : (c :: cs).takeWhile isNameRest = c :: cs.takeWhile isNameRest :=
    List.takeWhile_cons_of_pos (isNameRest_of_isNameStart hc)
  have hkind : wordKind ((c :: cs).takeWhile isNameRest) = .ident := hk
  rw [hname] at hkind
  refine ⟨c, cs.takeWhile isNameRest, ?_, hc, fun d hd => List.mem_takeWhile_imp hd, hkind⟩
  show (String.ofList ((c :: cs).takeWhile isNameRest)).toList = _
  rw [hname, String.toList_ofList]

/-- What is read as a fraction has the form of one: nothing, or a point and digits. -/
theorem isFraction_fraction (cs : List Char) : IsFraction (fraction cs).1 := by
  unfold fraction
  split
  next d cs =>
    split
    next hd =>
      refine .inr ⟨d, _, rfl, ?_⟩
      intro x hx
      rcases List.mem_cons.1 hx with rfl | hx
      · exact hd
      · exact List.mem_takeWhile_imp hx
    next => exact .inl rfl
  next => exact .inl rfl

/-- What is read as an exponent has the form of one. A mark without digits is not read, so the case of a
bare mark does not arise. -/
theorem isExponent_exponent (cs : List Char) : IsExponent (exponent cs).1 := by
  have digits : ∀ {d : Char} {ds : List Char}, d.isDigit = true →
      ∀ x ∈ d :: ds.takeWhile Char.isDigit, x.isDigit = true := by
    intro d ds hd x hx
    rcases List.mem_cons.1 hx with rfl | hx
    · exact hd
    · exact List.mem_takeWhile_imp hx
  unfold exponent
  split
  next e s cs =>
    split
    next h =>
      rw [Bool.and_eq_true] at h
      exact .inr ⟨e, [], s, _, rfl, h.1, .inl rfl, digits h.2⟩
    next =>
      split
      next d ds =>
        split
        next h =>
          simp only [Bool.and_eq_true, Bool.or_eq_true, beq_iff_eq] at h
          obtain ⟨⟨he, hs⟩, hd⟩ := h
          refine .inr ⟨e, [s], d, _, rfl, he, ?_, digits hd⟩
          rcases hs with rfl | rfl
          · exact .inr (.inl rfl)
          · exact .inr (.inr rfl)
        next => exact .inl rfl
      next => exact .inl rfl
  next => exact .inl rfl

/-- A number that was read is written as a number. -/
theorem isNumber_of_number {c : Char} (hc : c.isDigit = true) (cs : List Char) :
    IsNumber (number (c :: cs)).literal.toList := by
  have hwhole : (c :: cs).takeWhile Char.isDigit = c :: cs.takeWhile Char.isDigit :=
    List.takeWhile_cons_of_pos hc
  have hf := isFraction_fraction ((c :: cs).dropWhile Char.isDigit)
  have he := isExponent_exponent (fraction ((c :: cs).dropWhile Char.isDigit)).2
  have htext : (number (c :: cs)).literal.toList = c :: (cs.takeWhile Char.isDigit ++
      ((fraction ((c :: cs).dropWhile Char.isDigit)).1 ++
        (exponent (fraction ((c :: cs).dropWhile Char.isDigit)).2).1)) := by
    rw [number, plain, String.toList_ofList, hwhole, List.append_assoc]
    rfl
  refine ⟨c, _, _, _, htext, fun x hx => ?_, hf, he⟩
  rcases List.mem_cons.1 hx with rfl | hx
  · exact hc
  · exact List.mem_takeWhile_imp hx

/-- The text in braces has no brace that is closed without having been opened, since the region would have
ended there. -/
theorem fitsReference_of_closeBraces {cs inner rest : List Char}
    (h : closeBraces 0 cs = some (inner, rest)) : FitsReference inner := by
  have hself : ∀ {depth : Nat} {cs inner rest : List Char},
      closeBraces depth cs = some (inner, rest) →
      closeBraces depth (inner ++ ['}']) = some (inner, []) := by
    intro depth cs
    fun_induction closeBraces depth cs with
    | case1 => simp
    | case3 cs =>
      rintro inner rest h
      simp only [Option.some.injEq, Prod.mk.injEq] at h
      obtain ⟨rfl, rfl⟩ := h
      rfl
    | case2 _ _ ih | case4 _ _ ih =>
      rintro inner rest h
      obtain ⟨⟨i, r⟩, hi, he⟩ := Option.map_eq_some_iff.1 h
      simp only [Prod.mk.injEq] at he
      obtain ⟨rfl, rfl⟩ := he
      rw [List.cons_append, closeBraces, ih hi]
      rfl
    | case5 depth c cs h1 h2 h3 ih =>
      rintro inner rest h
      obtain ⟨i, hi, rfl⟩ := exists_of_map_fst (c :: ·) h
      rw [List.cons_append, closeBraces.eq_5 _ _ _ h1 h2 h3, ih hi]
      rfl
  exact hself h

/-- No part of a text that was split holds the separator. -/
theorem not_mem_splitOnChar {sep : Char} {cs piece : List Char} (h : piece ∈ splitOnChar sep cs) :
    sep ∉ piece := by
  induction cs generalizing piece with
  | nil =>
    rw [splitOnChar, List.mem_singleton] at h
    simp [h]
  | cons c cs ih =>
    rw [splitOnChar] at h
    split at h
    · rcases List.mem_cons.1 h with rfl | h
      · simp
      · exact ih h
    next hc =>
      cases hs : splitOnChar sep cs with
      | nil => exact absurd hs (splitOnChar_ne_nil sep cs)
      | cons p ps =>
        rw [hs, consHead] at h
        rcases List.mem_cons.1 h with rfl | h
        · intro hm
          rcases List.mem_cons.1 hm with rfl | hm
          · exact hc rfl
          · exact ih (hs ▸ List.mem_cons_self) hm
        · exact ih (hs ▸ List.mem_cons_of_mem p h)

/-- Pieces that are joined are found again. -/
theorem splitOnChar_joinWith {sep : Char} {pieces : List (List Char)} (hne : pieces ≠ [])
    (h : ∀ piece ∈ pieces, sep ∉ piece) : splitOnChar sep (joinWith [sep] pieces) = pieces := by
  induction pieces with
  | nil => exact absurd rfl hne
  | cons p ps ih =>
    cases ps with
    | nil => exact splitOnChar_of_not_mem (h p (by simp))
    | cons q qs =>
      have hi := ih (by simp) fun piece hp => h piece (List.mem_cons_of_mem p hp)
      rw [joinWith.eq_3 _ _ _ (by simp), List.append_assoc, List.singleton_append,
        splitOnChar_append, splitOnChar_of_not_mem (h p (by simp)), hi]
      rfl

/-- A text that is made longer has another last line and is otherwise the same. -/
theorem splitOnChar_append_of_not_mem {sep : Char} {ds : List Char} (h : sep ∉ ds)
    (cs : List Char) :
    ∃ front last, splitOnChar sep cs = front ++ [last] ∧
      splitOnChar sep (cs ++ ds) = front ++ [last ++ ds] := by
  induction cs with
  | nil => exact ⟨[], [], rfl, splitOnChar_of_not_mem h⟩
  | cons c cs ih =>
    obtain ⟨front, last, h1, h2⟩ := ih
    rw [List.cons_append, splitOnChar, splitOnChar, h1, h2]
    split
    · exact ⟨[] :: front, last, rfl, rfl⟩
    · cases front with
      | nil => exact ⟨[], c :: last, rfl, rfl⟩
      | cons p ps => exact ⟨(c :: p) :: ps, last, rfl, rfl⟩

/-- Carriage returns at the end of a content do not hide a line that would close the heredoc. -/
theorem fitsHeredoc_dropEndWhile {tag content : List Char}
    (h : ∀ line ∈ splitOnChar '\n' content, closesHeredoc tag line = false) :
    FitsHeredoc tag (dropEndWhile (· == '\r') content) := by
  obtain ⟨ds, hds, hcr⟩ := exists_append_dropEndWhile (· == '\r') content
  have hn : '\n' ∉ ds := fun hm => absurd (hcr _ hm) (by decide)
  obtain ⟨front, last, h1, h2⟩ :=
    splitOnChar_append_of_not_mem hn (dropEndWhile (· == '\r') content)
  rw [← hds] at h2
  rw [h2] at h
  constructor
  · intro line hl
    rw [h1] at hl
    rcases List.mem_append.1 hl with hl | hl
    · exact h line (List.mem_append_left _ hl)
    · obtain rfl := List.mem_singleton.1 hl
      have hlast := h (line ++ ds) (by simp)
      rwa [closesHeredoc, dropEndWhile_append hcr] at hlast
  · intro c hc
    have hlast := getLast?_dropEndWhile _ c hc
    rintro rfl
    exact absurd hlast (by decide)

/-- The text of a heredoc has no line that looks like the closing one, or it would have ended there. -/
theorem fitsHeredoc_of_heredoc {tag body : List Char} {l : Lexeme} (ht : tag ≠ [])
    (h : heredoc tag body = .ok l) :
    l.kind = .heredoc ∧ l.delimiter = some (String.ofList tag) ∧
      FitsHeredoc tag l.literal.toList := by
  unfold heredoc at h
  simp only at h
  split at h
  · simp at h
  next line after hd =>
    obtain rfl := Except.ok.inj h
    refine ⟨rfl, rfl, ?_⟩
    show FitsHeredoc tag (String.ofList _).toList
    rw [String.toList_ofList]
    apply fitsHeredoc_dropEndWhile
    have hopen : ∀ line ∈ (splitOnChar '\n' body).takeWhile fun line => !closesHeredoc tag line,
        closesHeredoc tag line = false := by
      intro line hl
      have hw := List.mem_takeWhile_imp hl
      simpa using hw
    have hself : ∀ line ∈ (splitOnChar '\n' body).takeWhile fun line => !closesHeredoc tag line,
        '\n' ∉ line := by
      intro line hl
      exact not_mem_splitOnChar ((List.takeWhile_sublist _).mem hl)
    -- Splitting the text again gives the same lines, unless there are none.
    by_cases hne : ((splitOnChar '\n' body).takeWhile fun line => !closesHeredoc tag line) = []
    · rw [hne]
      intro line hl
      obtain rfl : line = [] := List.mem_singleton.1 hl
      show (([] : List Char) == tag) = false
      exact beq_eq_false_iff_ne.2 fun he => ht he.symm
    · rw [splitOnChar_joinWith hne hself]
      exact hopen

/-- The tag of a heredoc is a name, all of it. -/
theorem isName_of_heredocTag? {cs tag body : List Char} (h : heredocTag? cs = some (tag, body)) :
    ∃ c ds, tag = c :: ds ∧ isNameStart c = true ∧ ∀ d ∈ ds, isNameRest d = true := by
  unfold heredocTag? at h
  split at h
  · simp at h
  next c cs =>
    split at h
    next hc =>
      simp only at h
      split at h
      · simp at h
      · split at h
        · simp only [Option.some.injEq, Prod.mk.injEq] at h
          obtain ⟨rfl, -⟩ := h
          rw [List.takeWhile_cons_of_pos (isNameRest_of_isNameStart hc)]
          exact ⟨c, _, rfl, hc, fun d hd => List.mem_takeWhile_imp hd⟩
        · simp at h
    · simp at h

end Lexeme

/-! ## 3. Any token -/

/-- The kinds of token of which nothing is asked. -/
def Kind.isMark : Kind → Bool
  | ident | number | str | heredoc | comment | envRef => false
  | _ => true

/-- A character on its own is a mark. -/
theorem Lexeme.isMark_of_single {c : Char} {cs : List Char} {l : Lexeme}
    (h : (match Lexeme.singleKind? c with
      | some kind => (.ok (Lexeme.plain kind [c] cs) : Except LexFault Lexeme)
      | none => .error (.unexpectedCharacter c)) = .ok l) : l.kind.isMark = true := by
  split at h
  next k hk =>
    obtain rfl := Except.ok.inj h
    show k.isMark = true
    unfold Lexeme.singleKind? at hk
    split at hk <;> first | (obtain rfl := Option.some.inj hk; rfl) | simp at hk
  next => simp at h

/-- Reading a mark gives a token that is a mark, whether it has one character or two. -/
theorem Lexeme.isMark_of_mark {c : Char} {cs : List Char} {l : Lexeme} (h : Lexeme.mark c cs = .ok l) :
    l.kind.isMark = true := by
  have pair : ∀ d k, Lexeme.pairKind? c d = some k → k.isMark = true := by
    intro d k hk
    unfold Lexeme.pairKind? at hk
    split at hk <;> first | (obtain rfl := Option.some.inj hk; rfl) | simp at hk
  unfold Lexeme.mark at h
  simp only at h
  split at h
  · exact isMark_of_single h
  next d rest =>
    split at h
    next k hk =>
      obtain rfl := Except.ok.inj h
      exact pair d k hk
    next => exact isMark_of_single h

/-- What the text of a token is like, by its kind. -/
def Token.Lawful (t : Token) : Prop :=
  match t.kind with
  | .ident => IsIdentifier t.literal
  | .number => Lexeme.IsNumber t.literal.toList
  | .str => ∃ q, t.quote = some q ∧ Lexeme.isQuote q = true
  | .heredoc =>
    ∃ tag, t.delimiter = some tag ∧ Lexeme.FitsHeredoc tag.toList t.literal.toList ∧
      ∃ c cs, tag.toList = c :: cs ∧ Lexeme.isNameStart c = true ∧
        ∀ d ∈ cs, Lexeme.isNameRest d = true
  | .comment => Lexeme.IsComment t.literal.toList
  | .envRef => ∃ text, Lexeme.FitsReference text ∧ t.literal = String.ofList (trimChars text)
  | _ => True

namespace Token

/-- A mark is what its kind says and has no text of its own to be lawful. -/
theorem lawful_of_isMark {t : Token} (h : t.kind.isMark = true) : t.Lawful := by
  unfold Lawful
  cases hk : t.kind <;> first | trivial | (rw [hk] at h; exact absurd h (by decide))

/-- **Every token that is cut off a text is lawful.** There is one case for each branch of the scanner, and
each branch checks just what its kind of token asks for. -/
theorem lawful_of_scan {c : Char} {cs : List Char} {l : Lexeme} (h : Lexeme.scan c cs = .ok l)
    (pos : Position) : (ofLexeme pos l).Lawful := by
  -- Two branches end in a comment to the end of the line, behind either of its marks.
  have comment : ∀ {c : Char} {cs : List Char}, c = '#' ∨ c = '-' ∧ (∃ ds, cs = '-' :: ds) →
      (ofLexeme pos (Lexeme.lineComment (c :: cs))).Lawful := by
    intro c cs hc
    show Lexeme.IsComment (String.ofList _).toList
    rw [String.toList_ofList]
    exact Lexeme.isComment_of_line hc
  unfold Lexeme.scan at h
  split at h
  next hc =>
    obtain rfl := Except.ok.inj h
    exact comment (.inl hc)
  split at h
  next hc =>
    obtain rfl := Except.ok.inj h
    by_cases hk : (Lexeme.word (c :: cs)).kind = .ident
    · have hident := Lexeme.isIdentifier_of_word hc hk
      unfold Lawful
      rw [show (ofLexeme pos (Lexeme.word (c :: cs))).kind = .ident from hk]
      exact hident
    -- Of a keyword or a truth value nothing is asked.
    · apply lawful_of_isMark
      show (Lexeme.wordKind _).isMark = true
      have hne : Lexeme.wordKind ((c :: cs).takeWhile Lexeme.isNameRest) ≠ .ident := hk
      revert hne
      unfold Lexeme.wordKind
      repeat' split
      all_goals first | (intro _; rfl) | exact fun hne => absurd rfl hne
  split at h
  next hc =>
    obtain rfl := Except.ok.inj h
    exact Lexeme.isNumber_of_number hc cs
  split at h
  next hq =>
    unfold Lexeme.string at h
    split at h
    · simp at h
    · obtain rfl := Except.ok.inj h
      exact ⟨c, rfl, hq⟩
  split at h
  next rest _ _ _ _ =>
    obtain rfl := Except.ok.inj h
    exact comment (.inr ⟨rfl, rest, rfl⟩)
  · unfold Lexeme.blockComment at h
    split at h
    · simp at h
    next inner rest hclose =>
      obtain rfl := Except.ok.inj h
      show Lexeme.IsComment (String.ofList _).toList
      rw [String.toList_ofList]
      exact .inr ⟨inner, rfl, Lexeme.closeComment_self hclose⟩
  · unfold Lexeme.reference at h
    split at h
    · simp at h
    next inner rest hclose =>
      obtain rfl := Except.ok.inj h
      exact ⟨inner, Lexeme.fitsReference_of_closeBraces hclose, rfl⟩
  · split at h
    next tag body ht =>
      obtain ⟨d, ds, htag, hd, hds⟩ := Lexeme.isName_of_heredocTag? ht
      obtain ⟨hk, hdel, hfits⟩ := Lexeme.fitsHeredoc_of_heredoc (by simp [htag]) h
      unfold Lawful
      rw [show (ofLexeme pos l).kind = .heredoc from hk]
      refine ⟨String.ofList tag, hdel, ?_, d, ds, ?_, hd, hds⟩
      · rw [String.toList_ofList]
        exact hfits
      · rw [String.toList_ofList, htag]
    next => exact lawful_of_isMark (Lexeme.isMark_of_mark h)
  · exact lawful_of_isMark (Lexeme.isMark_of_mark h)

/-- **The tokens of a text are lawful,** and the last one is the end of input. All others have been cut off
the text. -/
theorem lawful_of_listFrom {pos : Position} {cs : List Char} {ts : List Token}
    (h : listFrom pos cs = .ok ts) :
    (∃ t ∈ ts.getLast?, t.kind = .eof) ∧ ∀ t ∈ ts, t.Lawful := by
  replace h := listed_of_listFrom h
  induction h with
  | nil p =>
    have hend : (endOfInput p).Lawful := lawful_of_isMark rfl
    exact ⟨⟨_, rfl, rfl⟩, List.forall_mem_singleton.2 hend⟩
  | gap _ _ ih => exact ih
  | @lexeme p _ _ l us _ hl _ ih =>
    obtain ⟨⟨e, he, hk⟩, hus⟩ := ih
    constructor
    · refine ⟨e, ?_, hk⟩
      cases us with
      | nil => simp at he
      | cons u us => rw [List.getLast?_cons_cons]; exact he
    · intro t ht
      rcases List.mem_cons.1 ht with rfl | ht
      · exact lawful_of_scan hl p
      · exact hus t ht

end Token

/-! ## 4. References

A reference is written without the blank characters and the `env.` that its name was found behind.
None of them is a brace, so the braces of what is written are still closed in order. -/

namespace Text

/-- A text without blanks at its ends stays as it is. -/
theorem trimChars_eq_self {cs : List Char} (hfront : ∀ c ∈ cs.head?, isBlank c = false)
    (hback : ∀ c ∈ cs.getLast?, isBlank c = false) : trimChars cs = cs := by
  rw [trimChars, (takeWhile_of_head hfront).2, Lexeme.dropEndWhile_of_getLast? hback]

/-- A text is what is left of it when it is trimmed, between blank characters. -/
theorem exists_append_trimChars (cs : List Char) :
    ∃ front back, cs = front ++ (trimChars cs ++ back) ∧ (∀ c ∈ front, isBlank c = true) ∧
      ∀ c ∈ back, isBlank c = true := by
  obtain ⟨back, hback, hb⟩ := exists_append_dropEndWhile isBlank (cs.dropWhile isBlank)
  refine ⟨cs.takeWhile isBlank, back, ?_, fun c hc => List.mem_takeWhile_imp hc, hb⟩
  rw [trimChars, ← hback, List.takeWhile_append_dropWhile]

theorem getLast?_trimChars (cs : List Char) : ∀ c ∈ (trimChars cs).getLast?, isBlank c = false :=
  getLast?_dropEndWhile _

end Text

namespace Lexeme

/-- How many braces are open behind a text, if none is closed that was not open. -/
def openBraces : Nat → List Char → Option Nat
  | depth, [] => some depth
  | depth, c :: cs =>
    if c = '{' then openBraces (depth + 1) cs
    else if c = '}' then if depth = 0 then none else openBraces (depth - 1) cs
    else openBraces depth cs

/-- The braces of a text can be counted in two parts. If the first part closes one too many, so does the
whole. -/
theorem openBraces_append (depth : Nat) (a b : List Char) :
    openBraces depth (a ++ b) = (openBraces depth a).bind fun d => openBraces d b := by
  induction a generalizing depth with
  | nil => rfl
  | cons c cs ih =>
    rw [List.cons_append, openBraces, openBraces]
    split
    · exact ih (depth + 1)
    · split
      · split
        · rfl
        · exact ih (depth - 1)
      · exact ih depth

/-- A text without braces changes nothing in the count. -/
theorem openBraces_of_no_braces {cs : List Char} (h : ∀ c ∈ cs, c ≠ '{' ∧ c ≠ '}') (depth : Nat) :
    openBraces depth cs = some depth := by
  induction cs with
  | nil => rfl
  | cons c cs ih =>
    obtain ⟨h1, h2⟩ := h c (by simp)
    rw [openBraces, if_neg h1, if_neg h2]
    exact ih fun d hd => h d (List.mem_cons_of_mem c hd)

/-- Text without braces may be left out. -/
theorem openBraces_drop_middle {b : List Char} (h : ∀ c ∈ b, c ≠ '{' ∧ c ≠ '}') (depth : Nat)
    (a d : List Char) : openBraces depth (a ++ (b ++ d)) = openBraces depth (a ++ d) := by
  rw [openBraces_append, openBraces_append]
  cases openBraces depth a with
  | none => rfl
  | some k =>
    show openBraces k (b ++ d) = openBraces k d
    rw [openBraces_append, openBraces_of_no_braces h]
    rfl

/-- A text fits in a reference just when its braces are balanced, counted from the left. -/
theorem fitsReference_iff (text : List Char) : FitsReference text ↔ openBraces 0 text = some 0 := by
  -- At any depth, since an inner brace raises it.
  have hgeneral : ∀ (depth : Nat) (text : List Char),
      closeBraces depth (text ++ ['}']) = some (text, []) ↔ openBraces depth text = some 0 := by
    intro depth text
    induction text generalizing depth with
    | nil =>
      cases depth with
      | zero => simp [closeBraces, openBraces]
      | succ depth => simp [closeBraces, openBraces]
    | cons c cs ih =>
      rw [List.cons_append, openBraces]
      split
      next hc =>
        subst hc
        rw [closeBraces, ← ih (depth + 1)]
        simp [Option.map_eq_some_iff]
      next h1 =>
        split
        next hc =>
          subst hc
          cases depth with
          | zero => simp [closeBraces]
          | succ depth =>
            rw [closeBraces, if_neg (Nat.succ_ne_zero depth), Nat.add_sub_cancel, ← ih depth]
            simp [Option.map_eq_some_iff]
        next h2 =>
          rw [closeBraces.eq_5 _ _ _ h1 (fun _ => h2) (fun _ _ => h2), ← ih depth]
          simp [Option.map_eq_some_iff]
  exact hgeneral 0 text

end Lexeme

namespace Text

/-- What a text is split into at a separator, and that the first such place was taken. -/
theorem eq_append_of_splitOnce {sep : Char} {cs l r : List Char} (h : splitOnce sep cs = some (l, r)) :
    cs = l ++ sep :: r ∧ sep ∉ l := by
  induction cs generalizing l with
  | nil => simp [splitOnce] at h
  | cons c cs ih =>
    rw [splitOnce] at h
    split at h
    next hc =>
      simp only [Option.some.injEq, Prod.mk.injEq] at h
      obtain ⟨rfl, rfl⟩ := h
      exact ⟨by rw [hc]; rfl, by simp⟩
    next hc =>
      obtain ⟨⟨l', r'⟩, hs, he⟩ := Option.map_eq_some_iff.1 h
      simp only [Prod.mk.injEq] at he
      obtain ⟨rfl, rfl⟩ := he
      obtain ⟨h1, h2⟩ := ih hs
      refine ⟨by rw [h1]; rfl, ?_⟩
      intro hm
      rcases List.mem_cons.1 hm with hm | hm
      · exact hc hm.symm
      · exact h2 hm

/-- The first separator is where a text is split. -/
theorem splitOnce_append {sep : Char} {l : List Char} (h : sep ∉ l) (r : List Char) :
    splitOnce sep (l ++ sep :: r) = some (l, r) := by
  induction l with
  | nil => simp [splitOnce]
  | cons c cs ih =>
    have hc : c ≠ sep := fun hc => h (by simp [hc])
    rw [List.cons_append, splitOnce, if_neg hc, ih fun hm => h (List.mem_cons_of_mem c hm)]
    rfl

/-- A text is not split when it has no separator. -/
theorem splitOnce_eq_none_iff {sep : Char} {cs : List Char} : splitOnce sep cs = none ↔ sep ∉ cs := by
  constructor
  · intro h hm
    obtain ⟨l, r, rfl⟩ := List.append_of_mem hm
    induction l with
    | nil => simp [splitOnce] at h
    | cons c cs ih =>
      rw [List.cons_append, splitOnce] at h
      split at h
      · simp at h
      · exact ih (Option.map_eq_none_iff.1 h) (by simp)
  · intro h
    cases hs : splitOnce sep cs with
    | none => rfl
    | some p =>
      obtain ⟨l, r⟩ := p
      obtain ⟨rfl, -⟩ := eq_append_of_splitOnce hs
      exact absurd (by simp) h

/-- A name is what is left of a text without a prefix that it may have. -/
theorem exists_append_dropPrefix? (p cs : List Char) :
    ∃ front, (front = [] ∨ front = p) ∧ cs = front ++ (dropPrefix? p cs).getD cs := by
  cases h : dropPrefix? p cs with
  | none => exact ⟨[], .inl rfl, rfl⟩
  | some rest => exact ⟨p, .inr rfl, dropPrefix?_eq_some_iff.1 h⟩

end Text

/-- Blanks are no braces. -/
theorem no_braces_of_isBlank {cs : List Char} (h : ∀ c ∈ cs, isBlank c = true) :
    ∀ c ∈ cs, c ≠ '{' ∧ c ≠ '}' := by
  intro c hc
  constructor
  · rintro rfl
    exact absurd (h _ hc) (by decide)
  · rintro rfl
    exact absurd (h _ hc) (by decide)

/-- What is found when the name of a reference is looked for in a text: the name between characters
that are no braces, and not behind blank ones. -/
theorem exists_append_name (cs : List Char) :
    ∃ front name back, cs = front ++ (name ++ back) ∧
      (dropPrefix? "env.".toList (trimChars cs)).getD (trimChars cs) = name ∧
      (∀ c ∈ front, c ≠ '{' ∧ c ≠ '}') ∧ (∀ c ∈ back, c ≠ '{' ∧ c ≠ '}') ∧
      ∀ c ∈ name.getLast?, isBlank c = false := by
  have env : ∀ {ds : List Char}, ds = [] ∨ ds = "env.".toList → ∀ c ∈ ds, c ≠ '{' ∧ c ≠ '}' := by
    rintro ds (rfl | rfl) <;> simp
  obtain ⟨p, q, hcs, hp, hq⟩ := exists_append_trimChars cs
  obtain ⟨e, he, htrim⟩ := exists_append_dropPrefix? "env.".toList (trimChars cs)
  refine ⟨p ++ e, _, q, ?_, rfl, ?_, no_braces_of_isBlank hq, ?_⟩
  · rw [List.append_assoc, ← List.append_assoc e, ← htrim]
    exact hcs
  · intro c hc
    rcases List.mem_append.1 hc with hc | hc
    · exact no_braces_of_isBlank hp c hc
    · exact env he c hc
  · intro c hc
    apply getLast?_trimChars cs c
    rw [htrim, List.getLast?_append, Option.mem_def.1 hc]
    rfl

/-- A name that begins neither with a blank character nor with `env.` is found in itself. -/
theorem name_of_name {name : List Char} (hfront : ∀ c ∈ name.head?, isBlank c = false)
    (hback : ∀ c ∈ name.getLast?, isBlank c = false)
    (henv : dropPrefix? "env.".toList name = none) :
    (dropPrefix? "env.".toList (trimChars name)).getD (trimChars name) = name := by
  rw [trimChars_eq_self hfront hback, henv]
  rfl

/-- A reference whose name begins neither with a blank character nor with `env.` is read back. -/
theorem isReference_of_fits {text : List Char} (h : Lexeme.FitsReference text) {name : String}
    {default : Option String}
    (he : Rule.envReference (String.ofList (trimChars text)) = .envRef name default)
    (hfront : ∀ c ∈ name.toList.head?, isBlank c = false)
    (henv : dropPrefix? "env.".toList name.toList = none) : IsReference name default := by
  rw [Lexeme.fitsReference_iff] at h
  -- The blank characters at both ends are no braces.
  have hcs : Lexeme.openBraces 0 (trimChars text) = some 0 := by
    obtain ⟨p, q, htext, hp, hq⟩ := exists_append_trimChars text
    have hdrop := Lexeme.openBraces_drop_middle (no_braces_of_isBlank hp) 0 [] (trimChars text ++ q)
    have hdrop' := Lexeme.openBraces_drop_middle (no_braces_of_isBlank hq) 0 (trimChars text) []
    rw [List.nil_append, List.nil_append, ← htext, h] at hdrop
    rw [List.append_nil, List.append_nil, ← hdrop] at hdrop'
    exact hdrop'.symm
  have hlast := getLast?_trimChars text
  rw [Rule.envReference, String.toList_ofList] at he
  generalize trimChars text = cs at hcs hlast he
  unfold IsReference
  rw [Lexeme.fitsReference_iff]
  cases hs : splitOnce ':' cs with
  | none =>
    rw [hs] at he
    simp only [Node.envRef.injEq] at he
    obtain ⟨hname, rfl⟩ := he
    obtain ⟨p, nm, q, rfl, hnm, hp, hq, hback⟩ := exists_append_name cs
    rw [hnm] at hname
    subst hname
    rw [show (String.ofList nm).toList = nm from String.toList_ofList] at hfront henv
    have hdrop := Lexeme.openBraces_drop_middle hp 0 [] (nm ++ q)
    have hdrop' := Lexeme.openBraces_drop_middle hq 0 nm []
    rw [List.append_nil, List.append_nil] at hdrop'
    rw [List.nil_append, List.nil_append, hcs, hdrop'] at hdrop
    have hcolon : splitOnce ':' nm = none := by
      rw [splitOnce_eq_none_iff] at hs ⊢
      exact fun hm => hs (List.mem_append_right _ (List.mem_append_left _ hm))
    rw [referenceBody, String.toList_ofList]
    refine ⟨hdrop.symm, ?_⟩
    rw [trimChars_eq_self hfront hback, Rule.envReference, String.toList_ofList, hcolon]
    show Node.envRef (String.ofList ((dropPrefix? "env.".toList (trimChars nm)).getD _)) none = _
    rw [name_of_name hfront hback henv]
  | some pair =>
    obtain ⟨l, r⟩ := pair
    rw [hs] at he
    simp only [Node.envRef.injEq] at he
    obtain ⟨hname, rfl⟩ := he
    obtain ⟨rfl, hl⟩ := eq_append_of_splitOnce hs
    obtain ⟨p, nm, q, rfl, hnm, hp, hq, hback⟩ := exists_append_name l
    rw [hnm] at hname
    subst hname
    rw [show (String.ofList nm).toList = nm from String.toList_ofList] at hfront henv
    rw [List.append_assoc, List.append_assoc] at hcs
    have hdrop := Lexeme.openBraces_drop_middle hp 0 [] (nm ++ (q ++ ':' :: r))
    rw [List.nil_append, List.nil_append, hcs, Lexeme.openBraces_drop_middle hq] at hdrop
    have hcolon : ':' ∉ nm :=
      fun hm => hl (List.mem_append_right _ (List.mem_append_left _ hm))
    have htrim : trimChars (nm ++ ':' :: r) = nm ++ ':' :: r := by
      apply trimChars_eq_self
      · intro c hc
        cases nm with
        | nil =>
          obtain rfl : ':' = c := by simpa using hc
          decide
        | cons d ds => exact hfront c hc
      · intro c hc
        apply hlast c
        rw [List.getLast?_append] at hc ⊢
        cases hr : (':' :: r).getLast? with
        | none => simp at hr
        | some d =>
          rw [hr] at hc
          exact hc
    rw [referenceBody, String.toList_ofList, String.toList_ofList]
    refine ⟨hdrop.symm, ?_⟩
    rw [htrim, Rule.envReference, String.toList_ofList, splitOnce_append hcolon]
    show Node.envRef (String.ofList ((dropPrefix? "env.".toList (trimChars nm)).getD _)) _ = _
    rw [name_of_name hfront hback henv]

end BlockConfig
