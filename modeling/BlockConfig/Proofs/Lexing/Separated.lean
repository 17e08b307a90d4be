import BlockConfig.Proofs.Lexing.Replacing

/-!
A text in front of a separator.

What stands in braces is parted by commas and semicolons, and a brace closes it. No lexeme goes on
with one of the three, apart from those that only the end of a line ends: behind a comment up to the
end of its line a separator is a part of the comment, and behind the last line of a heredoc it keeps
this line from being the last one. A text that ends with neither is `Separable`: a semicolon behind
it is a token of its own. Then so is every other separator, and the text is cut into its tokens
whatever stands behind that (`Token.cuts_of_separable`).
-/

set_option autoImplicit false

namespace BlockConfig

open Text

/-- The text begins with a mark that parts what stands in braces or closes it. -/
def OpensSeparator (cs : List Char) : Prop :=
  ∃ m more, cs = m :: more ∧ (m = ',' ∨ m = ';' ∨ m = '}')

/-- A separator behind the text is a token of its own: neither a comment nor a heredoc at the end of
the text takes it in. -/
def Separable (cs : List Char) : Prop :=
  ∃ init t last, Token.list (cs ++ [';']) = .ok (init ++ [t, last]) ∧ t.kind = .semicolon

namespace Lexeme

variable {c : Char} {cs more : List Char} {l : Lexeme}

/-! ## 1. Lexemes in front of a separator -/

/-- A separator goes on neither a word nor a number. -/
theorem stops_of_opensSeparator (h : OpensSeparator more) : Stops more := by
  obtain ⟨m, more, rfl, hm⟩ := h
  refine ⟨?_, ?_, ?_⟩
  · rintro c ⟨⟩
    rcases hm with rfl | rfl | rfl <;> decide
  · rintro c ⟨⟩
    rcases hm with rfl | rfl | rfl <;> decide
  · rintro s d ds he hs
    obtain ⟨rfl, -⟩ := List.cons.inj he
    rcases hs with rfl | rfl <;> exact absurd hm (by decide)

theorem pairKind?_of_opensSeparator (h : OpensSeparator more) :
    ∀ d ∈ more.head?, pairKind? c d = none := by
  obtain ⟨m, more, rfl, hm⟩ := h
  rintro d ⟨⟩
  unfold pairKind?
  split
  all_goals first | rfl | exact absurd hm (by decide)

/-- A separator behind a name keeps it from being the tag of a heredoc. -/
theorem heredocTag?_of_opensSeparator (h : OpensSeparator more) (hcs : heredocTag? cs = none) :
    heredocTag? (cs ++ more) = none := by
  by_cases hline : '\n' ∈ cs
  · rw [heredocTag?_before hline, hcs]
    rfl
  obtain ⟨htake, hdrop⟩ := run_stops (stops_of_opensSeparator h).name cs
  obtain ⟨m, more, rfl, hm⟩ := h
  have hne : m ≠ '\n' := by
    rintro rfl
    exact absurd hm (by decide)
  -- The separator stands between the name and the end of its line, and it is not blank.
  have hblank : (((cs ++ m :: more).dropWhile isNameRest).takeWhile (· != '\n')).all isBlank =
      false := by
    rw [hdrop, List.takeWhile_append_of_pos, List.takeWhile_cons_of_pos (by simpa using hne),
      List.all_append, List.all_cons]
    · have hm : isBlank m = false := by rcases hm with rfl | rfl | rfl <;> decide
      rw [hm, Bool.false_and, Bool.and_false]
    · intro d hd
      have hd : d ∈ cs := (List.dropWhile_suffix isNameRest).mem hd
      have : d ≠ '\n' := by
        rintro rfl
        exact hline hd
      simpa using this
  unfold heredocTag?
  split
  · rfl
  · split
    · dsimp only
      split
      · rfl
      · rw [hblank]
        rfl
    · rfl

/-- In front of a separator a mark stays a mark, as no separator is the second half of something longer. -/
theorem MarkAt.of_opensSeparator (h : MarkAt c cs) (hmore : OpensSeparator more) :
    MarkAt c (cs ++ more) := by
  -- What belongs together with the mark is no separator.
  have first : ∀ {x : Char} {ds : List Char}, x = '-' ∨ x = '*' ∨ x = '{' ∨ x = '<' →
      cs ++ more = x :: ds → ∃ es, cs = x :: es ∧ ds = es ++ more := by
    intro x ds hx he
    cases cs with
    | nil =>
      obtain ⟨m, more, rfl, hm⟩ := hmore
      obtain ⟨rfl, -⟩ := List.cons.inj he
      rcases hm with rfl | rfl | rfl <;> exact absurd hx (by decide)
    | cons y ys =>
      obtain ⟨rfl, rfl⟩ := List.cons.inj he
      exact ⟨ys, rfl, rfl⟩
  refine ⟨h.sharp, h.name, h.digit, h.quote, ?_, ?_, ?_, ?_⟩
  · intro ds hc he
    obtain ⟨es, rfl, -⟩ := first (by simp) he
    exact h.dashes es hc rfl
  · intro ds hc he
    obtain ⟨es, rfl, -⟩ := first (by simp) he
    exact h.comment es hc rfl
  · intro ds hc he
    obtain ⟨es, rfl, -⟩ := first (by simp) he
    exact h.hole es hc rfl
  · intro ds hc he
    obtain ⟨es, rfl, rfl⟩ := first (by simp) he
    exact heredocTag?_of_opensSeparator hmore (h.heredoc es hc rfl)

theorem mark_of_opensSeparator (h : Lexeme.mark c cs = .ok l) (hmore : OpensSeparator more) :
    Lexeme.mark c (cs ++ more) = .ok (l.before more) := by
  by_cases hcs : cs = []
  · subst hcs
    rcases mark_ok_iff.1 h with ⟨k, hk, -, rfl⟩ | ⟨d, ds, k, he, -⟩
    · exact mark_ok_iff.2 (.inl ⟨k, hk, pairKind?_of_opensSeparator hmore, rfl⟩)
    · cases he
  · exact mark_before h hcs more

/-- A separator behind the line that closes a heredoc opens it again, and there is no other line
that closes it. -/
theorem heredoc_semicolon_ne_ok {tag body text : List Char}
    (ht : heredocTag? text = some (tag, body)) (h : heredoc tag body = .ok l) (hl : l.rest = [])
    (l' : Lexeme) : heredoc tag (body ++ [';']) ≠ .ok l' := by
  intro h'
  obtain ⟨content, line, after, hlines, hcontent, -, rfl⟩ := heredoc_ok_iff.1 h
  obtain ⟨content', line', after', hlines', -, hline', -⟩ := heredoc_ok_iff.1 h'
  obtain rfl : after = [] := by
    cases after with
    | nil => rfl
    | cons x xs => simp at hl
  obtain ⟨front, last, hfront, hlast⟩ :=
    splitOnChar_append_of_not_mem (show '\n' ∉ [';'] by decide) body
  obtain ⟨rfl, rfl⟩ : front = content ∧ last = line := by
    simpa using List.append_inj' (hfront.symm.trans hlines) rfl
  have hmem : line' ∈ front ++ [last ++ [';']] := by
    rw [← hlast, hlines']
    simp
  rcases List.mem_append.1 hmem with hmem | hmem
  · exact Bool.noConfusion ((hcontent line' hmem).symm.trans hline')
  · -- The last line ends with a semicolon, which is no part of a name.
    rw [List.mem_singleton.1 hmem, closesHeredoc, dropEndWhile_of_getLast? (by simp), beq_iff_eq]
      at hline'
    obtain ⟨d, ds, rfl, hd, hds⟩ := isName_of_heredocTag? ht
    have hsemicolon : ';' ∈ d :: ds := by
      rw [← hline']
      simp
    rcases List.mem_cons.1 hsemicolon with rfl | hsemicolon
    · exact absurd hd (by decide)
    · exact absurd (hds _ hsemicolon) (by decide)

/-- **A lexeme in front of a separator stays what it is,** if it does not take a semicolon in. That one mark
tells about all separators, so it is enough to try it. -/
theorem scan_of_opensSeparator (h : scan c cs = .ok l)
    (hopen : ∃ l', scan c (cs ++ [';']) = .ok l' ∧ (l'.rest = [] → l'.kind = .semicolon))
    (hmore : OpensSeparator more) : scan c (cs ++ more) = .ok (l.before more) := by
  have hstops := stops_of_opensSeparator hmore
  obtain ⟨l', hl', hkind⟩ := hopen
  refine scan_ok_iff.2 ?_
  cases scan_ok_iff.1 h with
  | lineComment hc =>
    have hc' : ∀ ds, c = '#' ∨ c = '-' ∧ ∃ es, cs ++ ds = '-' :: es := by
      refine fun ds => hc.imp id ?_
      rintro ⟨rfl, es, rfl⟩
      exact ⟨rfl, es ++ ds, rfl⟩
    by_cases hline : '\n' ∈ c :: cs
    · rw [← lineComment_before hline more]
      exact .lineComment (hc' more)
    · -- Without a line feed the semicolon would be a part of the comment.
      obtain rfl := Except.ok.inj ((Scanned.lineComment (hc' [';'])).scan_eq.symm.trans hl')
      have hrest : (lineComment (c :: (cs ++ [';']))).rest = [] := by
        refine List.dropWhile_eq_nil_iff.2 fun d hd => ?_
        have : d ≠ '\n' := by
          rintro rfl
          simp only [← List.cons_append, List.mem_append, hline, false_or] at hd
          exact absurd hd (by decide)
        simpa using this
      exact Kind.noConfusion (hkind hrest)
  | word hc =>
    rw [← word_stops hstops, List.cons_append]
    exact .word hc
  | number hc =>
    rw [← number_stops hstops, List.cons_append]
    exact .number hc
  | string hq hs => exact .string hq (stringBody_before hs more)
  | blockComment hs => exact .blockComment (closeComment_append hs more)
  | reference hs => exact .reference (closeBraces_append hs more)
  | @heredoc ds tag body _ ht hs =>
    -- The tag is followed by a line end, so it is found before the separator matters.
    have hline : '\n' ∈ ds := by
      obtain ⟨line, rfl, -⟩ := exists_line_of_heredocTag? ht
      simp
    have htag : ∀ es, heredocTag? (ds ++ es) = some (tag, body ++ es) := by
      intro es
      rw [heredocTag?_before hline, ht]
      rfl
    by_cases hl : l.rest = []
    -- A heredoc up to the end of the text would have the semicolon in its last line and not close.
    · have hscan : scan '<' ('<' :: ds ++ [';']) = heredoc tag (body ++ [';']) := by
        rw [List.cons_append, scan_less, htag]
      exact absurd (hscan.symm.trans hl') (heredoc_semicolon_ne_ok ht hs hl l')
    · obtain ⟨front, back, rfl, hback, hfront⟩ := exists_front_of_heredoc hs hl
      refine .heredoc (htag more) ?_
      rw [List.append_assoc, List.cons_append, hfront, before, hback]
      rfl
  | mark hc hm => exact .mark (hc.of_opensSeparator hmore) (mark_of_opensSeparator hm hmore)

end Lexeme

/-! ## 2. Texts in front of a separator -/

/-- What is cut of a text is at the beginning of its tokens. -/
theorem Cuts.exists_behind {P : List Char → Prop} {p : Position} {cs rest : List Char}
    {ts us : List Token} (h : Cuts P p cs ts) (hrest : P rest)
    (hlist : Token.listFrom p (cs ++ rest) = .ok us) :
    ∃ ws, Token.listFrom (p.advance cs) rest = .ok ws ∧ us = ts ++ ws := by
  rw [h.cut rest hrest] at hlist
  cases hws : Token.listFrom (p.advance cs) rest with
  | error fault =>
    rw [hws] at hlist
    cases hlist
  | ok ws =>
    rw [hws] at hlist
    exact ⟨ws, rfl, (Except.ok.inj hlist).symm⟩

/-- What is cut whatever stands behind it is cut in another place as well. -/
theorem Cuts.moved {P : List Char → Prop} {p : Position} {cs : List Char} {ts : List Token}
    (h : Cuts P p cs ts) (m : Displacement) (hp : 1 ≤ p.line) :
    Cuts P (p.moved m) cs (ts.map (Token.moved m)) where
  lines := by
    intro t ht
    obtain ⟨u, hu, rfl⟩ := List.mem_map.1 ht
    have := h.lines u hu
    rw [Position.advance_moved m hp, Token.pos_moved]
    simp only [Position.line_moved]
    omega
  cut rest hr := by
    rw [Token.listFrom_moved m hp, h.cut rest hr, Position.advance_moved m hp,
      Token.listFrom_moved m (Nat.le_trans hp (Position.line_le_advance p cs))]
    cases Token.listFrom (p.advance cs) rest with
    | error e => rfl
    | ok us => simp [Except.map, Except.mapError]

namespace Token

theorem Listed.ne_nil {p : Position} {cs : List Char} {ts : List Token} (h : Listed p cs ts) :
    ts ≠ [] := by
  induction h with
  | nil p => exact List.cons_ne_nil _ _
  | gap _ _ ih => exact ih
  | lexeme => exact List.cons_ne_nil _ _

/-- Nothing but gaps is in front of the end of input if there is no other token. -/
theorem Listed.isGap_of_singleton {p : Position} {cs : List Char} {t : Token}
    (h : Listed p cs [t]) : ∀ c ∈ cs, isGap c = true := by
  generalize hts : [t] = ts at h
  induction h with
  | nil p => simp
  | gap hc _ ih => exact List.forall_mem_cons.2 ⟨hc, ih hts⟩
  | lexeme _ _ h => exact absurd (List.cons.inj hts).2.symm h.ne_nil

/-- Two tokens at the end stay there if another one stands in front of them. -/
theorem exists_of_cons_eq {x t last : Token} {us init : List Token}
    (h : x :: us = init ++ [t, last]) :
    (∃ init', us = init' ++ [t, last]) ∨ x = t ∧ us = [last] := by
  cases init with
  | nil =>
    obtain ⟨rfl, rfl⟩ := List.cons.inj h
    exact .inr ⟨rfl, rfl⟩
  | cons y ys => exact .inl ⟨ys, (List.cons.inj h).2⟩

/-- If a text with a semicolon behind it is cut into its tokens and the semicolon, then it is cut in the
same way in front of every separator. What could have swallowed the semicolon, a comment or a string that
does not end, would swallow the others too. -/
theorem cuts_of_semicolon {p : Position} {cs : List Char} {ts : List Token}
    (h : Listed p cs ts) {init : List Token} {t last : Token}
    (hsep : listFrom p (cs ++ [';']) = .ok (init ++ [t, last])) (hk : t.kind = .semicolon) :
    ∃ init, ts = init ++ [endOfInput (p.advance cs)] ∧ Cuts OpensSeparator p cs init := by
  induction h generalizing init with
  | nil p => exact ⟨[], rfl, cuts_nil⟩
  | @gap p c cs ts hc _ ih =>
    rw [List.cons_append, listFrom_gap hc] at hsep
    obtain ⟨init, rfl, hcuts⟩ := ih hsep
    have hgap : Cuts Anything p [c] [] := cuts_gap (List.forall_mem_singleton.2 hc)
    exact ⟨init, rfl, hgap.append hcuts fun _ _ => anything _⟩
  | @lexeme p c taken l ts hc hl _ ih =>
    rw [List.cons_append] at hsep
    obtain ⟨l', taken', us, hl', -, hus, he⟩ := exists_of_listFrom_cons hc hsep
    -- If the lexeme took the semicolon in, it would be the token in front of the end of input.
    have hopen : l'.rest = [] → l'.kind = .semicolon := by
      intro hrest
      rw [hrest, listFrom_nil] at hus
      obtain rfl := Except.ok.inj hus
      rcases exists_of_cons_eq he.symm with ⟨init', hinit⟩ | ⟨rfl, -⟩
      · have := congrArg List.length hinit
        simp at this
      · exact hk
    have hscan : ∀ rest, OpensSeparator rest →
        Lexeme.scan c (taken ++ (l.rest ++ rest)) = .ok (l.before rest) := by
      intro rest hrest
      rw [← List.append_assoc]
      exact Lexeme.scan_of_opensSeparator hl ⟨l', hl', hopen⟩ hrest
    have hsemicolon : OpensSeparator [';'] := ⟨';', [], rfl, .inr (.inl rfl)⟩
    rw [List.append_assoc, listFrom_lexeme hc (hscan _ hsemicolon) rfl] at hsep
    cases hvs : listFrom (p.advance (c :: taken)) (l.rest ++ [';']) with
    | error e =>
      rw [hvs] at hsep
      cases hsep
    | ok vs =>
      rw [hvs] at hsep
      obtain ⟨init', hinit⟩ : ∃ init', vs = init' ++ [t, last] := by
        refine (exists_of_cons_eq (Except.ok.inj hsep)).resolve_right ?_
        rintro ⟨-, hlast⟩
        -- A semicolon is no gap.
        rw [hlast] at hvs
        exact absurd ((listed_of_listFrom hvs).isGap_of_singleton ';' (by simp)) (by decide)
      obtain ⟨init, rfl, hcuts⟩ := ih (hvs.trans (congrArg _ hinit))
      have hlexeme : Cuts (fun rest => ∃ more, rest = l.rest ++ more ∧ OpensSeparator more) p
          (c :: taken) [ofLexeme p l] := by
        refine cuts_lexeme hc ?_
        rintro _ ⟨more, rfl, hmore⟩
        exact hscan more hmore
      refine ⟨ofLexeme p l :: init, ?_, hlexeme.append hcuts fun rest hrest => ⟨rest, rfl, hrest⟩⟩
      rw [← Position.advance_append]
      rfl

/-- **A separable text is cut into its tokens in front of a separator,** wherever it stands. The places of
the tokens are moved along with the text. -/
theorem cuts_of_separable {cs : List Char} {ts : List Token} (h : list cs = .ok ts)
    (hsep : Separable cs) : ∃ init last, ts = init ++ [endOfInput last] ∧
      ∀ m, Cuts OpensSeparator (Position.start.moved m) cs (init.map (moved m)) := by
  obtain ⟨_, t, last, hlist, hk⟩ := hsep
  obtain ⟨init, rfl, hcuts⟩ := cuts_of_semicolon (listed_of_listFrom h) hlist hk
  exact ⟨init, _, rfl, fun m => hcuts.moved m (Nat.le_refl 1)⟩

end Token

end BlockConfig
