import BlockConfig.Proofs.Lexing.Joining

/-!
A text without the blanks around it.

Trimming a text that can be cut does not change its tokens, except that they stand further to the
front. In front of the text only gaps can be dropped, because no token begins with a blank
character. At its end every lexeme stops before the blanks (`Lexeme.Trims`), with two exceptions: a
heredoc may be closed by a line with carriage returns, which are no part of it, and a comment that
runs up to the end of its line loses the blanks that it ended with. So the two token lists are the
same up to the text of a last comment (`Token.list_trimChars`).
-/

set_option autoImplicit false

namespace BlockConfig

open Text

/-- The text does not end with a blank character. -/
def Tight (cs : List Char) : Prop :=
  ∀ c ∈ cs.getLast?, isBlank c = false

theorem Tight.of_suffix {cs r : List Char} (h : Tight cs) (hr : r <:+ cs) : Tight r := by
  intro c hc
  obtain ⟨a, rfl⟩ := hr
  refine h c ?_
  rw [List.getLast?_append, Option.mem_def.1 hc]
  rfl

/-- A text that ends with no blank is trimmed at its front. -/
theorem Tight.takeWhile_append_trimChars {cs : List Char} (h : Tight cs) :
    cs.takeWhile isBlank ++ trimChars cs = cs := by
  rw [trimChars, Lexeme.dropEndWhile_of_getLast? (h.of_suffix (List.dropWhile_suffix isBlank)),
    List.takeWhile_append_dropWhile]

/-- All characters of the text are blank. -/
def Blank (cs : List Char) : Prop :=
  ∀ c ∈ cs, isBlank c = true

theorem Blank.breaks {cs : List Char} (h : Blank cs) : Breaks cs :=
  fun c hc => h c (List.mem_of_mem_head? hc)

/-- A character that is not blank stands in front of blanks behind a text in that text. -/
theorem exists_rest_of_append {front rest cs back : List Char} {x : Char}
    (h : cs ++ back = front ++ x :: rest) (hx : isBlank x = false) (hback : Blank back) :
    ∃ r, cs = front ++ x :: r ∧ rest = r ++ back := by
  rcases List.append_eq_append_iff.1 h with ⟨a, rfl, hb⟩ | ⟨a, rfl, hb⟩
  · have hmem : x ∈ back := by
      rw [hb]
      simp
    exact Bool.noConfusion (hx.symm.trans (hback x hmem))
  · cases a with
    | nil =>
      have hmem : x ∈ back := by
        rw [← List.nil_append back, ← hb]
        exact List.mem_cons_self
      exact Bool.noConfusion (hx.symm.trans (hback x hmem))
    | cons y ys =>
      obtain ⟨rfl, rfl⟩ := List.cons.inj hb
      exact ⟨ys, rfl, rfl⟩

namespace Lexeme

variable {c : Char} {cs back : List Char}

/-! ## 1. Lexemes -/

/-- What becomes of a lexeme when the blanks behind the text are dropped: it stays, or it is the
last one and at most the text of a comment changes. -/
inductive Trims (back : List Char) (l l' : Lexeme) : Prop
  | inside (h : l = l'.before back)
  | last (rest : l.rest <:+ back) (ended : l'.rest = [])
      (same : l = { l' with rest := l.rest } ∨ l.kind = .comment ∧ l'.kind = .comment)

/-- A text behind another one goes on with its last line and has lines of its own. -/
theorem exists_lines (sep : Char) (more : List Char) : ∃ ds lines, sep ∉ ds ∧
    more = ds ++ lines.flatMap (sep :: ·) ∧
    ∀ cs, splitOnChar sep (cs ++ more) = splitOnChar sep (cs ++ ds) ++ lines := by
  have hds : sep ∉ more.takeWhile (· != sep) := by
    intro hm
    exact absurd (List.mem_takeWhile_imp hm) (by simp)
  have happend := List.takeWhile_append_dropWhile (p := (· != sep)) (l := more)
  cases hdrop : more.dropWhile (· != sep) with
  | nil =>
    rw [hdrop, List.append_nil] at happend
    refine ⟨more, [], happend ▸ hds, by simp, by simp⟩
  | cons x rest =>
    obtain rfl : x = sep := by
      have hhead := List.head?_dropWhile_not (· != sep) more
      rw [hdrop] at hhead
      simpa using hhead
    rw [hdrop] at happend
    refine ⟨_, splitOnChar x rest, hds, ?_, fun cs => ?_⟩
    · rw [flatMap_splitOnChar, happend]
    · rw [← splitOnChar_append, List.append_assoc, happend]

/-- The line that closes a heredoc is not blank, and blanks behind it are carriage returns. -/
theorem closesHeredoc_tight {tag last ds : List Char} (ht : Tight tag)
    (h : closesHeredoc tag (last ++ ds) = true) (hlast : Tight last) (hds : Blank ds) :
    last = tag ∧ closesHeredoc tag last = true := by
  obtain ⟨rs, hrs, hreturn⟩ := exists_append_dropEndWhile (· == '\r') (last ++ ds)
  rw [eq_of_beq h] at hrs
  have hblank : Blank rs := by
    intro c hc
    rw [eq_of_beq (hreturn c hc)]
    rfl
  -- Both the line and the tag are what is left of the same text without its blanks.
  have heq : last = tag := by
    have htrim := congrArg (dropEndWhile isBlank) hrs
    rwa [dropEndWhile_append hds, dropEndWhile_append hblank, dropEndWhile_of_getLast? hlast,
      dropEndWhile_of_getLast? ht] at htrim
  refine ⟨heq, ?_⟩
  rw [heq, closesHeredoc, dropEndWhile_of_getLast? fun c hc => ?_]
  · exact beq_self_eq_true tag
  · have hc := ht c hc
    rw [beq_eq_false_iff_ne]
    rintro rfl
    exact Bool.noConfusion hc

/-- A heredoc is read without the blanks at the end of the text as well. The line that closes it is one in
front of those blanks, or it is the last one, of which they leave the tag. -/
theorem heredoc_trims {tag body : List Char} {l : Lexeme} (htag : tag ≠ []) (ht : Tight tag)
    (h : heredoc tag (body ++ back) = .ok l) (hbody : Tight body) (hback : Blank back) :
    ∃ l', heredoc tag body = .ok l' ∧ Trims back l l' := by
  obtain ⟨ds, lines, hds, rfl, hmore⟩ := exists_lines '\n' back
  obtain ⟨front, last, hfront, hfront'⟩ := splitOnChar_append_of_not_mem hds body
  have hblank : Blank ds := fun c hc => hback c (List.mem_append_left _ hc)
  have hlast : Tight last := by
    have htext := flatMap_splitOnChar '\n' body
    rw [hfront, List.flatMap_append, List.flatMap_singleton] at htext
    have hlength := congrArg List.length htext
    rw [List.length_append, List.length_cons, List.length_cons] at hlength
    refine hbody.of_suffix (List.suffix_of_suffix_length_le ?_ (List.suffix_cons '\n' body) ?_)
    · rw [← htext]
      exact (List.suffix_cons '\n' last).trans (List.suffix_append _ _)
    · omega
  obtain ⟨content, line, after, hsplit, hcontent, hline, rfl⟩ := heredoc_ok_iff.1 h
  rw [hmore, hfront', List.append_assoc, List.singleton_append] at hsplit
  have atLast : front = content → last ++ ds = line → lines = after →
      ∃ l', heredoc tag body = .ok l' ∧ Trims (ds ++ lines.flatMap ('\n' :: ·))
        ⟨.heredoc, String.ofList (dropEndWhile (· == '\r') (joinWith ['\n'] content)),
          some (String.ofList tag), none, after.flatMap ('\n' :: ·)⟩ l' := by
    rintro rfl rfl rfl
    have hclosed := (closesHeredoc_tight ht hline hlast hblank).2
    refine ⟨_, heredoc_ok_iff.2 ⟨front, last, [], hfront, hcontent, hclosed, rfl⟩, ?_⟩
    exact .last (List.suffix_append _ _) rfl (.inl rfl)
  rcases List.append_eq_append_iff.1 hsplit with ⟨a, ha, hb⟩ | ⟨a, ha, hb⟩
  · cases a with
    | nil =>
      obtain ⟨h1, h2⟩ := List.cons.inj hb
      exact atLast (by rw [ha, List.append_nil]) h1 h2
    | cons y ys =>
      -- The lines behind the last one are blank.
      have hmem : line ∈ lines := by
        rw [(List.cons.inj hb).2]
        exact List.mem_append_right ys List.mem_cons_self
      have hempty := (@closesHeredoc_tight tag [] line ht hline (by intro c hc; cases hc)
        fun c hc => hback c (List.mem_append_right ds
          (List.mem_flatMap.2 ⟨line, hmem, List.mem_cons_of_mem _ hc⟩))).1
      exact absurd hempty.symm htag
  · cases a with
    | nil =>
      obtain ⟨h1, h2⟩ := List.cons.inj hb
      exact atLast (by rw [ha, List.append_nil]) h1.symm h2.symm
    | cons y ys =>
      obtain ⟨rfl, rfl⟩ := List.cons.inj hb
      refine ⟨_, heredoc_ok_iff.2 ⟨content, line, ys ++ [last], ?_, hcontent, hline, rfl⟩,
        .inside ?_⟩
      · rw [hfront, ha, List.append_assoc, List.cons_append]
      · simp [before, List.flatMap_append]

/-- The mark that closes a block comment. -/
theorem exists_front_of_closeComment {cs inner rest : List Char}
    (h : closeComment cs = some (inner, rest)) : ∃ front, cs = front ++ '/' :: rest ∧
      ∀ more, closeComment (front ++ '/' :: more) = some (inner, more) := by
  obtain ⟨front, rfl⟩ : ∃ front, inner = front ++ ['/'] := by
    fun_induction closeComment cs generalizing inner rest with
    | case1 => simp at h
    | case2 cs =>
      simp only [Option.some.injEq, Prod.mk.injEq] at h
      exact ⟨['*'], h.1.symm⟩
    | case3 c cs hno ih =>
      obtain ⟨i, hi, rfl⟩ := exists_of_map_fst (c :: ·) h
      obtain ⟨front, rfl⟩ := ih hi
      exact ⟨c :: front, rfl⟩
  refine ⟨front, ?_, fun more => ?_⟩
  · rw [append_of_closeComment h, List.append_assoc]
    rfl
  · have hself := closeComment_append (closeComment_self h) more
    rwa [List.append_assoc, List.nil_append] at hself

theorem tight_of_names {ds : List Char} (h : ∀ d ∈ ds, isNameRest d = true) : Tight ds := by
  intro d hd
  refine Bool.eq_false_iff.2 fun hblank => ?_
  have hname := h d (List.mem_of_getLast? hd)
  exact Bool.noConfusion (hname.symm.trans (not_isNameRest_of_isBlank hblank))

/-- A comment is over at the end of its line, or it loses the blanks at its end. -/
theorem lineComment_trims (cs back : List Char) :
    Trims back (lineComment (cs ++ back)) (lineComment cs) := by
  by_cases hline : '\n' ∈ cs
  · exact .inside (lineComment_before hline back)
  · have hall : ∀ d ∈ cs, (d != '\n') = true := by
      intro d hd
      rw [bne_iff_ne]
      rintro rfl
      exact hline hd
    refine .last ?_ (List.dropWhile_eq_nil_iff.2 hall) (.inr ⟨rfl, rfl⟩)
    show (cs ++ back).dropWhile (· != '\n') <:+ back
    rw [List.dropWhile_append_of_pos hall]
    exact List.dropWhile_suffix _

/-- No line of a blank text closes a heredoc. -/
theorem heredoc_ne_ok_of_blank {tag body : List Char} (htag : tag ≠ []) (ht : Tight tag)
    (hbody : Blank body) (l : Lexeme) : heredoc tag body ≠ .ok l := by
  intro h
  obtain ⟨l', hl', -⟩ := @heredoc_trims body tag [] l htag ht h (fun c hc => by cases hc) hbody
  exact heredoc_nil_ne_ok htag l' hl'

/-- If the line of the tag ends in the blanks behind a text, so does the content. -/
theorem blank_of_heredocTag? {tag body : List Char} (h : heredocTag? (cs ++ back) = some (tag, body))
    (hline : '\n' ∉ cs) (hback : Blank back) : Blank body := by
  obtain ⟨line, hcut, -⟩ := exists_line_of_heredocTag? h
  rcases List.append_eq_append_iff.1 hcut with ⟨a, -, rfl⟩ | ⟨a, rfl, ha⟩
  · intro b hb
    exact hback b (List.mem_append_right a (List.mem_cons_of_mem _ hb))
  · cases a with
    | nil =>
      intro b hb
      rw [List.nil_append] at ha
      exact hback b (ha ▸ List.mem_cons_of_mem _ hb)
    | cons y ys =>
      obtain ⟨rfl, -⟩ := List.cons.inj ha
      exact absurd (List.mem_append_right line List.mem_cons_self) hline

/-- Where nothing longer than an operator begins, nothing longer begins without what is behind. -/
theorem MarkAt.of_append (h : MarkAt c (cs ++ back)) : MarkAt c cs where
  sharp := h.sharp
  name := h.name
  digit := h.digit
  quote := h.quote
  dashes := by
    rintro ds hd rfl
    exact h.dashes (ds ++ back) hd rfl
  comment := by
    rintro ds hd rfl
    exact h.comment (ds ++ back) hd rfl
  hole := by
    rintro ds hd rfl
    exact h.hole (ds ++ back) hd rfl
  heredoc := by
    rintro ds hd rfl
    have hnone := h.heredoc (ds ++ back) hd rfl
    cases ht : heredocTag? ds with
    | none => rfl
    | some p =>
      obtain ⟨line, rfl, -⟩ := exists_line_of_heredocTag? ht
      rw [heredocTag?_before (by simp), ht] at hnone
      cases hnone

/-- A mark does not go on with blanks. -/
theorem mark_trims {l : Lexeme} (h : mark c (cs ++ back) = .ok l) (hback : Blank back) :
    ∃ l', mark c cs = .ok l' ∧ Trims back l l' := by
  rcases mark_ok_iff.1 h with ⟨k, hk, hno, rfl⟩ | ⟨d, ds, k, htext, hk, rfl⟩
  · have hno' : ∀ d ∈ cs.head?, pairKind? c d = none := by
      intro d hd
      refine hno d ?_
      rw [List.head?_append, Option.mem_def.1 hd]
      rfl
    exact ⟨_, mark_ok_iff.2 (.inl ⟨k, hk, hno', rfl⟩), .inside rfl⟩
  · have hd : isBlank d = false := by
      unfold pairKind? at hk
      split at hk
      all_goals first | rfl | simp at hk
    obtain ⟨r, rfl, rfl⟩ := @exists_rest_of_append [] _ _ _ _ htext hd hback
    exact ⟨_, mark_ok_iff.2 (.inr ⟨d, r, k, rfl, hk, rfl⟩), .inside rfl⟩

/-- **A lexeme does not depend on blanks behind the text.** What it ends with is in the text itself, and of
what is left at most the blanks differ. -/
theorem scan_trims {l : Lexeme} (h : scan c (cs ++ back) = .ok l) (hcs : Tight (c :: cs))
    (hback : Blank back) : ∃ l', scan c cs = .ok l' ∧ Trims back l l' := by
  have hcs' : Tight cs := hcs.of_suffix (List.suffix_cons c cs)
  -- A second character that is not blank is one of the text.
  have second : ∀ {x : Char} {ds : List Char}, cs ++ back = x :: ds → isBlank x = false →
      ∃ r, cs = x :: r ∧ ds = r ++ back :=
    fun he hx => @exists_rest_of_append [] _ _ _ _ he hx hback
  have hscanned := scan_ok_iff.1 h
  generalize htext : cs ++ back = text at hscanned
  cases hscanned with
  | lineComment hc =>
    have hc' : c = '#' ∨ c = '-' ∧ ∃ ds, cs = '-' :: ds := by
      refine hc.imp id ?_
      rintro ⟨rfl, ds, rfl⟩
      obtain ⟨r, rfl, -⟩ := second htext rfl
      exact ⟨rfl, r, rfl⟩
    rw [← htext, ← List.cons_append]
    exact ⟨_, scan_ok_iff.2 (.lineComment hc'), lineComment_trims (c :: cs) back⟩
  | word hc =>
    rw [← htext, ← List.cons_append]
    exact ⟨_, scan_ok_iff.2 (.word hc), .inside (word_stops (stops_of_breaks hback.breaks) _)⟩
  | number hc =>
    rw [← htext, ← List.cons_append]
    exact ⟨_, scan_ok_iff.2 (.number hc), .inside (number_stops (stops_of_breaks hback.breaks) _)⟩
  | string hq hs =>
    obtain ⟨front, rfl, hfront⟩ := exists_front_of_stringBody hs
    obtain ⟨r, rfl, rfl⟩ := exists_rest_of_append htext (not_isBlank_of_isQuote hq) hback
    exact ⟨_, scan_ok_iff.2 (.string hq (hfront r)), .inside rfl⟩
  | blockComment hs =>
    obtain ⟨r, rfl, rfl⟩ := second htext rfl
    obtain ⟨front, hr, hfront⟩ := exists_front_of_closeComment hs
    obtain ⟨r, rfl, rfl⟩ := exists_rest_of_append hr rfl hback
    exact ⟨_, scan_ok_iff.2 (.blockComment (hfront r)), .inside rfl⟩
  | reference hs =>
    obtain ⟨r, rfl, rfl⟩ := second htext rfl
    obtain ⟨r, rfl, rfl⟩ := exists_rest_of_append (append_of_closeBraces hs) rfl hback
    have hclosed := closeBraces_append (fitsReference_of_closeBraces hs) r
    rw [List.append_assoc] at hclosed
    exact ⟨_, scan_ok_iff.2 (.reference hclosed), .inside rfl⟩
  | @heredoc ds tag body _ ht hs =>
    obtain ⟨r, rfl, rfl⟩ := second htext rfl
    obtain ⟨d, ts, rfl, hd, hts⟩ := isName_of_heredocTag? ht
    have htight : Tight (d :: ts) :=
      tight_of_names (List.forall_mem_cons.2 ⟨isNameRest_of_isNameStart hd, hts⟩)
    have hne : d :: ts ≠ [] := List.cons_ne_nil d ts
    -- If the line of the tag does not end in the text, only blanks are left for the content.
    by_cases hline : '\n' ∈ r
    · rw [heredocTag?_before hline] at ht
      obtain ⟨⟨tag, body⟩, htag, he⟩ := Option.map_eq_some_iff.1 ht
      simp only [Prod.mk.injEq] at he
      obtain ⟨rfl, rfl⟩ := he
      have hbody : Tight body :=
        hcs'.of_suffix ((suffix_of_heredocTag? htag).trans (List.suffix_cons '<' r))
      obtain ⟨l', hl', htrims⟩ := heredoc_trims hne htight hs hbody hback
      exact ⟨l', scan_ok_iff.2 (.heredoc htag hl'), htrims⟩
    · have hblank : Blank body := blank_of_heredocTag? ht hline hback
      exact absurd hs (heredoc_ne_ok_of_blank hne htight hblank l)
  | mark hc hm =>
    subst htext
    obtain ⟨l', hl', htrims⟩ := mark_trims hm hback
    exact ⟨l', scan_ok_iff.2 (.mark hc.of_append hl'), htrims⟩

/-- No lexeme begins with a blank character. -/
theorem not_isBlank_of_scan {l : Lexeme} (h : scan c cs = .ok l) : isBlank c = false := by
  have word : isNameRest c = true → isBlank c = false := fun hn =>
    Bool.eq_false_iff.2 fun hc => Bool.noConfusion (hn.symm.trans (not_isNameRest_of_isBlank hc))
  cases scan_ok_iff.1 h with
  | lineComment hc => rcases hc with rfl | ⟨rfl, -⟩ <;> rfl
  | word hc => exact word (isNameRest_of_isNameStart hc)
  | number hc => exact word (isNameRest_of_isDigit hc)
  | string hq => exact not_isBlank_of_isQuote hq
  | blockComment | reference | heredoc => rfl
  | mark _ hm =>
    rcases mark_ok_iff.1 hm with ⟨k, hk, -, -⟩ | ⟨d, ds, k, -, hk, -⟩
    · unfold singleKind? at hk
      split at hk
      all_goals first | rfl | simp at hk
    · unfold pairKind? at hk
      split at hk
      all_goals first | rfl | simp at hk

end Lexeme

/-! ## 2. Texts -/

namespace Token

variable {p : Position} {cs back : List Char} {ts : List Token}

/-- Blanks in front of a text that can be cut are gaps. -/
theorem listFrom_append_of_blank {front : List Char} (hfront : Blank front)
    (h : listFrom p (front ++ cs) = .ok ts) : listFrom (p.advance front) cs = .ok ts := by
  induction front generalizing p with
  | nil => exact h
  | cons c front ih =>
    cases hc : isGap c with
    | true =>
      rw [List.cons_append, listFrom_gap hc] at h
      exact ih (fun d hd => hfront d (List.mem_cons_of_mem c hd)) h
    | false =>
      obtain ⟨l, -, -, hl, -⟩ := exists_of_listFrom_cons hc h
      have hblank := Lexeme.not_isBlank_of_scan hl
      exact Bool.noConfusion (hblank.symm.trans (hfront c List.mem_cons_self))

/-- A blank text that can be cut has no tokens. -/
theorem eq_of_listFrom_blank (hcs : Blank cs) (h : listFrom p cs = .ok ts) :
    ts = [endOfInput (p.advance cs)] := by
  rw [← List.append_nil cs] at h
  exact (Except.ok.inj ((listFrom_nil _).symm.trans (listFrom_append_of_blank hcs h))).symm

/-- What token lists end with that are the same up to the text of a last comment. -/
inductive Closing : List Token → List Token → Prop
  | eof {t t' : Token} (h : t.kind = .eof) (h' : t'.kind = .eof) : Closing [t] [t']
  | comment {t u t' u' : Token} (ht : t.kind = .comment) (hu : u.kind = .eof)
      (ht' : t'.kind = .comment) (hu' : u'.kind = .eof) : Closing [t, u] [t', u']

/-- Moving tokens does not change what they end with. -/
theorem Closing.of_moved {m : Displacement} {tail tail' : List Token}
    (h : Closing tail (tail'.map (moved m))) : Closing tail tail' := by
  generalize htail : tail'.map (moved m) = moved' at h
  cases h with
  | eof h h' =>
    obtain ⟨t', rfl, rfl⟩ := List.map_eq_singleton_iff.1 htail
    exact .eof h h'
  | comment ht hu ht' hu' =>
    obtain ⟨t', us, rfl, rfl, hus⟩ := List.map_eq_cons_iff.1 htail
    obtain ⟨u', rfl, rfl⟩ := List.map_eq_singleton_iff.1 hus
    exact .comment ht hu ht' hu'

/-- A text is cut as it is without the blanks at its end, up to the text of a comment in the last line,
which the blanks are a part of. -/
theorem listFrom_trims (hcs : Tight cs) (hback : Blank back)
    (h : listFrom p (cs ++ back) = .ok ts) :
    ∃ init tail tail', ts = init ++ tail ∧ listFrom p cs = .ok (init ++ tail') ∧
      Closing tail tail' := by
  induction hn : cs.length using Nat.strong_induction_on generalizing p cs ts with
  | _ n ih =>
    rcases cs with _ | ⟨c, cs⟩
    · rw [eq_of_listFrom_blank hback h]
      exact ⟨[], _, _, rfl, listFrom_nil p, .eof rfl rfl⟩
    have htail : Tight cs := hcs.of_suffix (List.suffix_cons c cs)
    rw [List.length_cons] at hn
    cases hc : isGap c with
    | true =>
      rw [List.cons_append, listFrom_gap hc] at h
      rw [listFrom_gap hc]
      exact ih _ (by omega) htail h rfl
    | false =>
      rw [List.cons_append] at h
      obtain ⟨l, taken, us, hl, htaken, hus, rfl⟩ := exists_of_listFrom_cons hc h
      obtain ⟨l', hl', htrims⟩ := Lexeme.scan_trims hl hcs hback
      obtain ⟨taken', rfl⟩ : ∃ taken', cs = taken' ++ l'.rest := by
        obtain ⟨taken', he⟩ := Lexeme.suffix_of_scan hl'
        exact ⟨taken', he.symm⟩
      rw [listFrom_lexeme hc hl' rfl]
      cases htrims with
      | inside he =>
        subst he
        obtain rfl : taken' = taken := by
          rw [List.append_assoc] at htaken
          exact List.append_cancel_right htaken
        have hlength : l'.rest.length < n := by
          rw [List.length_append] at hn
          omega
        obtain ⟨init, tail, tail', rfl, hinit, hclosing⟩ :=
          ih _ hlength (htail.of_suffix (List.suffix_append _ _)) hus rfl
        rw [hinit]
        exact ⟨ofLexeme p l' :: init, tail, tail', rfl, rfl, hclosing⟩
      | last hrest hended hsame =>
        -- Nothing but blanks is behind it, with or without those that are dropped.
        have hblank : Blank l.rest := fun b hb => hback b (hrest.subset hb)
        rw [eq_of_listFrom_blank hblank hus, hended, listFrom_nil]
        rcases hsame with hsame | ⟨hk, hk'⟩
        · rw [hsame]
          exact ⟨[ofLexeme p l'], _, _, rfl, rfl, .eof rfl rfl⟩
        · exact ⟨[], _, _, rfl, rfl, .comment hk rfl hk' rfl⟩

/-- **Trimming a text does not change its tokens:** they stand further to the front by the blanks
that were dropped there, and at most the text of a last comment is another one. -/
theorem list_trimChars {cs : List Char} {ts : List Token} (h : list cs = .ok ts) :
    ∃ init tail tail', list (trimChars cs) = .ok (init ++ tail') ∧
      ts = init.map (moved (.upTo (Position.start.advance (cs.takeWhile isBlank)))) ++ tail ∧
      Closing tail tail' := by
  obtain ⟨back, hdrop, hback⟩ := exists_append_dropEndWhile isBlank (cs.dropWhile isBlank)
  have hfront : Blank (cs.takeWhile isBlank) := fun c hc => List.mem_takeWhile_imp hc
  have hcs : cs.takeWhile isBlank ++ (trimChars cs ++ back) = cs := by
    rw [trimChars, ← hdrop, List.takeWhile_append_dropWhile]
  have hfrom : listFrom (Position.start.advance (cs.takeWhile isBlank)) (trimChars cs ++ back) =
      .ok ts := by
    refine listFrom_append_of_blank hfront ?_
    rw [hcs]
    exact h
  generalize hq : Position.start.advance (cs.takeWhile isBlank) = q at hfrom
  have hplace : Position.start.moved (.upTo q) = q := by
    rw [← hq, Position.start_advance]
    exact Position.start_moved_upTo (Nat.le_add_right 1 _) (Nat.le_add_right 1 _)
  obtain ⟨moved', tail, tail', rfl, hmoved, hclosing⟩ :=
    listFrom_trims (getLast?_trimChars cs) hback hfrom
  have heq := listFrom_moved (.upTo q) (p := .start) (Nat.le_refl 1) (trimChars cs)
  rw [hplace, hmoved] at heq
  cases hlist : list (trimChars cs) with
  | error m =>
    rw [← list, hlist] at heq
    cases heq
  | ok us =>
    rw [← list, hlist] at heq
    obtain ⟨init, rest, rfl, rfl, rfl⟩ := List.map_eq_append_iff.1 (Except.ok.inj heq).symm
    exact ⟨init, tail, rest, rfl, rfl, hclosing.of_moved⟩

end Token

end BlockConfig
