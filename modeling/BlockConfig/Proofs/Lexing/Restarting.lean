import BlockConfig.Proofs.Lexing.Joining

/-!
Where lexing can start again.

Behind a line feed that ends a text which can be cut on its own, the lexer stands as at the
beginning of a text: no reader looks across, and neither does the search for the line that closes a
heredoc. So a text behind such a text is cut, or refused, as it is on its own, and only its lines are
further down (`Token.tokenize_append`). An error shows the same line of the text, since the lines of
the two texts are those of the first and, behind them, those of the second (`line?_append`).
-/

set_option autoImplicit false

namespace BlockConfig

open Text

/-! ## 1. Lines -/

namespace Text

/-- A text has one line more than it has line feeds. -/
theorem length_splitOnChar (sep : Char) (cs : List Char) :
    (splitOnChar sep cs).length = cs.count sep + 1 := by
  induction cs with
  | nil => rfl
  | cons c cs ih =>
    by_cases hc : c = sep
    · rw [splitOnChar, if_pos hc, List.length_cons, ih, hc, List.count_cons_self]
    · have hhead : ∀ lines, lines ≠ [] → (consHead c lines).length = lines.length := by
        rintro (_ | ⟨piece, pieces⟩) hne
        · exact absurd rfl hne
        · rfl
      rw [splitOnChar, if_neg hc, hhead _ (splitOnChar_ne_nil sep cs), ih, List.count_cons_of_ne hc]

/-- The lines of a text behind the end of a line are its own. -/
theorem line?_append {a : List Char} (ha : EndsLine a) (b : List Char) (n : Nat) :
    line? (a.count '\n' + n) (a ++ b) = line? n b := by
  obtain ⟨front, rfl⟩ : ∃ front, a = front ++ ['\n'] :=
    ⟨_, (List.dropLast_append_getLast? _ ha).symm⟩
  have hlines : splitOnChar '\n' (front ++ ['\n'] ++ b) =
      splitOnChar '\n' front ++ splitOnChar '\n' b := by
    rw [List.append_assoc]
    exact Lexeme.splitOnChar_append '\n' front b
  have hlength : (front ++ ['\n']).count '\n' = (splitOnChar '\n' front).length := by
    rw [List.count_append, length_splitOnChar]
    rfl
  have hlast : (splitOnChar '\n' front).length + n + 1 <
      (splitOnChar '\n' front).length + (splitOnChar '\n' b).length ↔
        n + 1 < (splitOnChar '\n' b).length := by
    omega
  simp only [line?, hlines, hlength, List.length_append, hlast, Nat.le_add_right,
    List.getElem?_append_right, Nat.add_sub_cancel_left]

end Text

/-! ## 2. Further down -/

/-- The position some lines further down. -/
def Position.lowered (lines : Nat) (p : Position) : Position :=
  ⟨p.line + lines, p.column⟩

/-- The token some lines further down. -/
def Token.lowered (lines : Nat) (t : Token) : Token :=
  { t with pos := t.pos.lowered lines }

/-- The error some lines further down. -/
def ParseError.lowered (lines : Nat) (e : ParseError) : ParseError :=
  { e with pos := e.pos.lowered lines }

/-- A text that ends with a line feed moves what is behind it down, and not to the right. -/
theorem Position.moved_below (cs : List Char) (p : Position) :
    p.moved (.below cs) = p.lowered (cs.count '\n') := by
  simp [moved, Displacement.below, lowered]

namespace Token

theorem moved_below (cs : List Char) : moved (.below cs) = lowered (cs.count '\n') :=
  funext fun t => by rw [moved, lowered, Position.moved_below]

/-- No text is refused above the line it begins on. -/
theorem line_le_of_listFrom_error {p : Position} {cs : List Char} {m : Misplaced LexFault}
    (h : listFrom p cs = .error m) : p.line ≤ m.pos.line := by
  fun_induction listFrom p cs with
  | case1 p cs q hcs => cases h
  | case2 p cs q c body hcs fault hscan =>
    obtain rfl := Except.error.inj h
    exact Position.line_le_advance p _
  | case3 p cs q c body hcs l hscan ih =>
    cases hrest : listFrom (q.advance ((c :: body).take (body.length + 1 - l.rest.length)))
        l.rest with
    | ok ts =>
      rw [hrest] at h
      cases h
    | error m' =>
      rw [hrest] at h
      obtain rfl := Except.error.inj h
      have hq : p.line ≤ q.line := Position.line_le_advance p _
      exact Nat.le_trans hq (Nat.le_trans (Position.line_le_advance q _) (ih hrest))

/-- An error behind the end of a line shows the same line, with the same words. -/
theorem toParseError_append {a : List Char} (ha : a = [] ∨ EndsLine a) (file : String)
    (b : List Char) {m : Misplaced LexFault} (hm : 1 ≤ m.pos.line) :
    Misplaced.toParseError LexFault.message file (a ++ b) ⟨m.fault, m.pos.moved (.below a)⟩ =
      (Misplaced.toParseError LexFault.message file b m).lowered (a.count '\n') := by
  have hcontext : line? (m.pos.line + a.count '\n' - 1) (a ++ b) = line? (m.pos.line - 1) b := by
    rcases ha with rfl | ha
    · rfl
    · rw [← line?_append ha b]
      congr 1
      omega
  rw [Position.moved_below]
  simp only [Misplaced.toParseError, ParseError.point, ParseError.lowered, Position.lowered,
    hcontext]

/-! ## 3. Two texts, one behind the other -/

/-- The tokens of a text behind another one are those it has on its own, and so is its fault. -/
theorem list_append {a : List Char} {ta : List Token} (ha : list a = .ok ta)
    (hline : a = [] ∨ EndsLine a) (b : List Char) :
    ∃ init, ta = init ++ [endOfInput (Position.behind a)] ∧ (∀ t ∈ init, t.kind ≠ .eof) ∧
      list (a ++ b) = ((list b).map fun tb => init ++ tb.map (moved (.below a))).mapError
        fun m => ⟨m.fault, m.pos.moved (.below a)⟩ := by
  obtain ⟨init, rfl, hcuts, -⟩ := cuts_of_listFrom ha hline
  obtain ⟨init', spans, heq, hcov⟩ := @covers_of_listFrom [] a _ ha
  obtain ⟨rfl, -⟩ := List.append_inj' heq rfl
  have hstart : Position.start.advance a = Position.start.moved (.below a) := by
    rcases hline with rfl | hline
    · rfl
    · exact Position.advance_of_endsLine hline
  refine ⟨init, heq, fun t ht => ?_, ?_⟩
  · obtain ⟨s, -, hread⟩ := hcov.exists_readFrom ht
    exact hread.kind
  · rw [list, hcuts.cut b (anything b), hstart, listFrom_moved (.below a) (Nat.le_refl 1)]
    show _ = ((listFrom .start b).map _).mapError _
    cases listFrom .start b <;> rfl

/-- The tokens of a text are those of its characters. -/
theorem list_of_tokenize {source file : String} {ts : List Token}
    (h : tokenize source file = .ok ts) : list source.toList = .ok ts := by
  rw [tokenize] at h
  cases hlist : list source.toList with
  | error m =>
    rw [hlist] at h
    cases h
  | ok ts' =>
    rw [hlist] at h
    exact congrArg _ (Except.ok.inj h)

/-- **Lexing starts again at every line it finishes.** Behind a text that is empty or ends with a
line feed and that is cut on its own, any text is cut into the tokens that it is cut into on its
own, further down by the lines in front of it, or it is refused with the error that it is refused
with on its own, further down by as much. -/
theorem tokenize_append {a b file : String} {ta : List Token} (ha : tokenize a file = .ok ta)
    (hline : a = "" ∨ EndsLine a.toList) :
    ∃ init, ta = init ++ [endOfInput (Position.behind a.toList)] ∧ (∀ t ∈ init, t.kind ≠ .eof) ∧
      tokenize (a ++ b) file =
        ((tokenize b file).map fun tb => init ++ tb.map (lowered (a.toList.count '\n'))).mapError
          (ParseError.lowered (a.toList.count '\n')) := by
  replace hline : a.toList = [] ∨ EndsLine a.toList := hline.imp String.toList_eq_nil_iff.2 id
  obtain ⟨init, hta, hkinds, happend⟩ := list_append (list_of_tokenize ha) hline b.toList
  refine ⟨init, hta, hkinds, ?_⟩
  rw [tokenize, tokenize, String.toList_append, happend]
  cases hb : list b.toList with
  | error m =>
    have hm : 1 ≤ m.pos.line := line_le_of_listFrom_error hb
    exact congrArg Except.error (toParseError_append hline file b.toList hm)
  | ok tb =>
    rw [← moved_below]
    rfl

/-- A heredoc, and behind it the line that closed it once more and a string that nothing closes. -/
theorem tokenize_append_heredoc :
    tokenize "<<T\nx\nT\n" "f" =
        .ok [⟨.heredoc, "x", ⟨1, 1⟩, some "T", none⟩, endOfInput ⟨4, 1⟩] ∧
      EndsLine "<<T\nx\nT\n".toList ∧
      tokenize "T\n'" "f" = .error ⟨"Unterminated string literal", "f", ⟨2, 1⟩, "'"⟩ ∧
      tokenize ("<<T\nx\nT\n" ++ "T\n'") "f" =
        .error ⟨"Unterminated string literal", "f", ⟨5, 1⟩, "'"⟩ := by
  have ha : tokenize "<<T\nx\nT\n" "f" =
      .ok [⟨.heredoc, "x", ⟨1, 1⟩, some "T", none⟩, endOfInput ⟨4, 1⟩] := by
    have hlist : list "<<T\nx\nT\n".toList =
        .ok [⟨.heredoc, "x", ⟨1, 1⟩, some "T", none⟩, endOfInput ⟨4, 1⟩] := by
      refine listFrom_step rfl rfl rfl ?_
      exact (listFrom_gap rfl _ _).trans (listFrom_nil _)
    rw [tokenize, hlist]
    rfl
  have hb : tokenize "T\n'" "f" = .error ⟨"Unterminated string literal", "f", ⟨2, 1⟩, "'"⟩ := by
    have hlist : list "T\n'".toList = .error ⟨.unterminatedString, ⟨2, 1⟩⟩ := by
      have hquote : listFrom ⟨1, 2⟩ ['\n', '\''] = .error ⟨.unterminatedString, ⟨2, 1⟩⟩ := by
        rw [listFrom_gap rfl, listFrom_eq]
        rfl
      have hword : list "T\n'".toList = (listFrom ⟨1, 2⟩ ['\n', '\'']).map
          (⟨.ident, "T", ⟨1, 1⟩, none, none⟩ :: ·) :=
        @listFrom_lexeme 'T' [] ['\n', '\''] _ rfl rfl rfl .start
      rw [hword, hquote]
      rfl
    rw [tokenize, hlist]
    rfl
  have hline : EndsLine "<<T\nx\nT\n".toList := rfl
  refine ⟨ha, hline, hb, ?_⟩
  -- The line that has closed the heredoc does not open it again: the error is that of the second text,
  -- three lines down.
  obtain ⟨init, -, -, happend⟩ := tokenize_append (b := "T\n'") ha (.inr hline)
  rw [happend, hb]
  rfl

end Token

end BlockConfig
