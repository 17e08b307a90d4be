import BlockConfig.Proofs.Grammar.Faults
import BlockConfig.Proofs.Lexing.Faults

/-!
Where an error of reading points.

Line and column of an error are those of one place of the text (`ParseError.PointsTo`), and the line it
shows is the line of that place. The place is the beginning of what no token can be read from
(`ParseError.Unreadable`) or the beginning of the token that is refused by a search that the reader comes
to (`ParseError.Cause`); if that is the end of input, it is the end of the text. Both say what the lexer
and the reader have passed on their way, so there is no other error of the kind in the text, and
conversely whatever is described in this way is the error that is reported (`Node.parseError_points`).

The two halves of this are shown elsewhere, for the lexer and for the rules of the grammar. What is left is
to find the place of a token in the text, and that a list of tokens is long enough for its rules not to run
out of budget.
-/

set_option autoImplicit false

namespace BlockConfig

/-! ## 1. Places -/

/-- Different places of a text have different positions. -/
theorem Position.behind_take_inj {cs : List Char} {n m : Nat} (hn : n ≤ cs.length)
    (hm : m ≤ cs.length) (h : behind (cs.take n) = behind (cs.take m)) : n = m := by
  have htake := eq_of_behind (List.take_prefix n cs) (List.take_prefix m cs) h
  have hlength := congrArg List.length htake
  rwa [List.length_take_of_le hn, List.length_take_of_le hm] at hlength

/-- The place of a token: it is read from there, or it is the end of input. -/
def Token.StandsAt (cs : List Char) (n : Nat) (t : Token) : Prop :=
  (∃ stop, t.ReadFrom cs ⟨n, stop⟩) ∨ t = endOfInput (Position.behind cs) ∧ n = cs.length

/-- The position of a token is that of its place. -/
theorem Token.StandsAt.position {cs : List Char} {n : Nat} {t : Token} (h : t.StandsAt cs n) :
    n ≤ cs.length ∧ t.pos = Position.behind (cs.take n) := by
  rcases h with ⟨stop, read⟩ | ⟨rfl, rfl⟩
  · exact ⟨(read.nonempty.trans_le read.inside).le, read.position⟩
  · exact ⟨Nat.le_refl _, by rw [List.take_length]; rfl⟩

/-- Every token of a text has a place. -/
theorem Token.exists_standsAt {cs : List Char} {ts : List Token} (h : list cs = .ok ts) {t : Token}
    (ht : t ∈ ts) : ∃ n, t.StandsAt cs n := by
  obtain ⟨init, spans, rfl, covers⟩ := @covers_of_listFrom [] cs ts h
  rcases List.mem_append.1 ht with hinit | hlast
  · obtain ⟨s, -, read⟩ := covers.exists_readFrom hinit
    exact ⟨s.start, .inl ⟨s.stop, read⟩⟩
  · exact ⟨cs.length, .inr ⟨List.mem_singleton.1 hlast, rfl⟩⟩

/-! ## 2. Errors -/

namespace ParseError

/-- An error points to a place of a text: its line and its column count the line feeds and the characters in
front of the place, and it shows the line of the place. -/
structure PointsTo (cs : List Char) (n : Nat) (e : ParseError) : Prop where
  inside : n ≤ cs.length
  position : e.pos = Position.behind (cs.take n)
  context : Text.LineAt cs n e.context.toList

/-- The lexer comes to a place by tokens and gaps, and no token can be read from there. -/
inductive Unreadable (cs : List Char) (n : Nat) : String → Prop
  | stopped {fault : LexFault} (reached : Token.Reached cs n) (opens : fault.Opens (cs.drop n)) :
      Unreadable cs n fault.message

/-- What is wrong at a place of a text that is to be read as `whole`, and what is said about it: no token
can be read from there, or there stands the token that a search refuses to which the reader comes from the
beginning of the text. -/
inductive Cause (whole : Construct) (cs : List Char) (n : Nat) : String → Prop
  | unreadable {message : String} (h : Unreadable cs n message) : Cause whole cs n message
  | misplaced {ts : List Token} {s : Search} {t : Token} {fault : SyntaxFault}
      (read : Token.list cs = .ok ts)
      (comes : Relation.ReflTransGen Search.LooksFor ⟨Rule.budget ts, whole, .ofTokens ts⟩ s)
      (refuses : s.Refuses t fault) (mem : t ∈ ts) (stands : t.StandsAt cs n)
      (about : fault.IsAbout ts t) : Cause whole cs n fault.message

theorem pointsTo_point {cs : List Char} {n : Nat} (hn : n ≤ cs.length) (message file : String) :
    (point message file (Position.behind (cs.take n)) cs).PointsTo cs n where
  inside := hn
  position := rfl
  context := by
    have hline : (Position.behind (cs.take n)).line - 1 = (cs.take n).count '\n' :=
      Nat.add_sub_cancel_left _ _
    rw [point, hline, String.toList_ofList]
    exact Text.lineAt_line? cs n

/-- File, message and place determine an error. -/
theorem PointsTo.eq_point {cs : List Char} {n : Nat} {e : ParseError} (h : e.PointsTo cs n) :
    e = point e.message e.file (Position.behind (cs.take n)) cs := by
  have hpoint := (pointsTo_point h.inside e.message e.file).context
  have hcontext := (Text.eq_of_lineAt h.context).trans (Text.eq_of_lineAt hpoint).symm
  obtain ⟨message, file, pos, context⟩ := e
  obtain rfl : pos = _ := h.position
  exact congrArg (ParseError.mk message file _) (String.toList_inj.1 hcontext)

/-- An error is about a file and points to one place of its text, where it has a cause. -/
def Located (source file : String) (cause : List Char → Nat → String → Prop) (e : ParseError) :
    Prop :=
  e.file = file ∧ ∃ n, e.PointsTo source.toList n ∧ cause source.toList n e.message ∧
    ∀ m, e.PointsTo source.toList m → m = n

theorem located_point {source message : String} {cause : List Char → Nat → String → Prop} {n : Nat}
    (hn : n ≤ source.toList.length) (h : cause source.toList n message) (file : String) :
    (point message file (Position.behind (source.toList.take n)) source.toList).Located
      source file cause := by
  refine ⟨rfl, n, pointsTo_point hn message file, h, fun m hm => ?_⟩
  exact Position.behind_take_inj hm.inside hn hm.position.symm

end ParseError

/-! ## 3. Texts that are refused -/

/-- A text that cannot be cut into tokens. -/
theorem Token.tokenize_eq_error_iff {source file : String} {e : ParseError} :
    tokenize source file = .error e ↔
      ∃ m, list source.toList = .error m ∧
        e = m.toParseError LexFault.message file source.toList := by
  rw [tokenize]
  cases list source.toList with
  | error m => simp [Except.mapError, eq_comm]
  | ok ts => simp [Except.mapError]

/-- **The lexer refuses a text where it cannot be read,** and only there. The places are those that it comes
to by tokens and gaps, and there is one at most from which nothing can be read. -/
theorem Token.tokenize_error_iff {source file : String} {e : ParseError} :
    tokenize source file = .error e ↔ e.Located source file ParseError.Unreadable := by
  rw [tokenize_eq_error_iff]
  constructor
  · rintro ⟨m, hm, rfl⟩
    obtain ⟨n, hn, hpos, opens, reached⟩ := reached_of_list_error hm
    rw [Misplaced.toParseError, hpos]
    exact ParseError.located_point hn (.stopped reached opens) file
  · rintro ⟨hfile, n, hpoints, hcause, -⟩
    rw [hpoints.eq_point, hfile]
    generalize e.message = message at hcause
    obtain ⟨reached, opens⟩ := hcause
    exact ⟨⟨_, Position.behind (source.toList.take n)⟩,
      list_eq_error_iff.2 ⟨n, hpoints.inside, rfl, opens, reached⟩, rfl⟩

namespace Rule

variable {α : Type} {rule : Nat → Rule α} {source file : String} {e : ParseError}

/-- A text that is cut into tokens which a rule does not read. -/
theorem readText_eq_error_iff : readText rule source file = .error e ↔
    Token.tokenize source file = .error e ∨
      ∃ ts m, Token.list source.toList = .ok ts ∧ (rule (budget ts)).Stops (.ofTokens ts) m ∧
        e = m.toParseError SyntaxFault.message file source.toList := by
  unfold readText
  cases htokens : Token.tokenize source file with
  | error e' =>
    obtain ⟨m, hlist, -⟩ := Token.tokenize_eq_error_iff.1 htokens
    refine ⟨fun h => .inl (congrArg Except.error (Except.error.inj h)), ?_⟩
    rintro (h | ⟨ts, -, hts, -⟩)
    · exact congrArg Except.error (Except.error.inj h)
    · cases hlist.symm.trans hts
  | ok ts =>
    have hts := Token.list_of_tokenize htokens
    dsimp only [bind, Except.bind]
    cases hrun : (rule (budget ts)).run (.ofTokens ts) with
    | ok p =>
      refine iff_of_false (fun h => by cases h) ?_
      rintro (h | ⟨ts', m, hts', hstops, -⟩)
      · cases h
      · obtain rfl := Except.ok.inj (hts.symm.trans hts')
        cases hrun.symm.trans hstops
    | error m =>
      constructor
      · rintro ⟨⟩
        exact .inr ⟨ts, m, hts, hrun, rfl⟩
      · rintro (h | ⟨ts', m', hts', hstops, rfl⟩)
        · cases h
        · obtain rfl := Except.ok.inj (hts.symm.trans hts')
          obtain rfl := Except.error.inj (hrun.symm.trans hstops)
          rfl

/-- **A rule refuses a text where it finds fault with a token,** if it does so with tokens only and never
runs out of budget. -/
theorem readText_error_iff {whole : Construct}
    (fails : ∀ {n : Nat} {c : Cursor} {m : Misplaced SyntaxFault},
      Search.Fails ⟨n, whole, c⟩ m → (rule n).Stops c m)
    (faults : ∀ ts n, FindsFault ts n whole (rule n))
    (ends : ∀ ts, (Cursor.ofTokens ts).Ended → Ends ts rule (.ofTokens ts)) :
    readText rule source file = .error e ↔ e.Located source file (ParseError.Cause whole) := by
  rw [readText_eq_error_iff, Token.tokenize_error_iff]
  constructor
  · rintro (⟨hfile, n, hpoints, hcause, hunique⟩ | ⟨ts, m, hts, hrun, rfl⟩)
    · exact ⟨hfile, n, hpoints, .unreadable hcause, hunique⟩
    obtain ⟨init, last, hlist, hlast, hinit, -⟩ := Token.ended_of_list hts
    have honce : Token.EndsOnce ts := ⟨init, last, hlist, hlast, hinit⟩
    have hended : (Cursor.ofTokens ts).Ended :=
      honce.ended (c := .ofTokens ts) List.suffix_rfl (by simp [Cursor.ofTokens, hlist])
    have hbudget := (ends ts hended (budget ts) (Nat.le_refl _)).fault m hrun
    obtain ⟨t, ht⟩ := faults ts _ ⟨hended, List.suffix_rfl⟩ m hrun hbudget
    obtain ⟨s, comes, refuses⟩ := ht.refused
    obtain ⟨n, stands⟩ := Token.exists_standsAt hts ht.mem
    rw [Misplaced.toParseError, ht.position, stands.position.2]
    exact ParseError.located_point stands.position.1
      (.misplaced hts comes refuses ht.mem stands ht.about) file
  -- Conversely, the cause says with which fault and at which token the run fails.
  · rintro ⟨hfile, n, hpoints, hcause, hunique⟩
    generalize hmessage : e.message = message at hcause
    cases hcause with
    | unreadable h => exact .inl ⟨hfile, n, hpoints, hmessage ▸ h, hunique⟩
    | @misplaced ts s t fault read comes refuses mem stands about =>
      refine .inr ⟨ts, ⟨fault, t.pos⟩, read, fails (Search.fails_of_refuses comes refuses), ?_⟩
      rw [hpoints.eq_point, hfile, hmessage, Misplaced.toParseError, stands.position.2]

end Rule

/-- **An error of reading points into its text.** The lexer, the reader of documents and the reader of
single expressions refuse a text with an error exactly if the error is about the file they are given and
is located in the text. Then its line and its column are those of exactly one place of the text. For the
lexer it is the beginning of what no token can be read from, where the lexer comes by tokens and gaps. For
the readers it is that, or the beginning of the token which is refused by a search that the reader comes
to from the beginning of the text, which is the end of the text if that token is the end of input. And the
error shows the line of that place without its ending. -/
theorem Node.parseError_points (source file : String) (e : ParseError) :
    (Token.tokenize source file = .error e ↔ e.Located source file ParseError.Unreadable) ∧
    (Node.parse source file = .error e ↔
      e.Located source file (ParseError.Cause .document)) ∧
    (Node.parseExpression source file = .error e ↔
      e.Located source file (ParseError.Cause .loneExpression)) := by
  refine ⟨Token.tokenize_error_iff, Rule.readText_error_iff id Rule.finds_document ?_,
    Rule.readText_error_iff id Rule.finds_loneExpression ?_⟩
  · exact fun _ hc => Rule.ends_of_settles Rule.settles_document (by decide) hc List.suffix_rfl
  · exact fun _ hc =>
      Rule.ends_of_settles Rule.settles_loneExpression (by decide) hc List.suffix_rfl

/-- A token that no expression begins with, behind a heredoc and on a line that ends in a carriage return
and a line feed, as all lines do. -/
theorem Node.parseError_points_heredoc :
    let e : ParseError := ⟨"Expected an expression, found ')'", "f", ⟨4, 5⟩, "z = )"⟩
    Node.parse "s = <<T\r\nx\r\nT\r\nz = )\r\n" "f" = .error e ∧
      e.PointsTo "s = <<T\r\nx\r\nT\r\nz = )\r\n".toList 19 ∧
      ParseError.Cause .document "s = <<T\r\nx\r\nT\r\nz = )\r\n".toList 19 e.message := by
  intro e
  have hlist : Token.list "s = <<T\r\nx\r\nT\r\nz = )\r\n".toList =
      .ok [⟨.ident, "s", ⟨1, 1⟩, none, none⟩, ⟨.assign, "=", ⟨1, 3⟩, none, none⟩,
        ⟨.heredoc, "x", ⟨1, 5⟩, some "T", none⟩, ⟨.ident, "z", ⟨4, 1⟩, none, none⟩,
        ⟨.assign, "=", ⟨4, 3⟩, none, none⟩, ⟨.rparen, ")", ⟨4, 5⟩, none, none⟩,
        .endOfInput ⟨5, 1⟩] := by
    iterate 6 refine Token.listFrom_step rfl rfl rfl ?_
    exact (Token.listFrom_gap rfl _ _).trans
      ((Token.listFrom_gap rfl _ _).trans (Token.listFrom_nil _))
  have hparse : Node.parse "s = <<T\r\nx\r\nT\r\nz = )\r\n" "f" = .error e := by
    rw [Node.parse, Rule.readText, Token.tokenize, hlist]
    rfl
  obtain ⟨-, n, points, cause, -⟩ := (Node.parseError_points _ _ _).2.1.1 hparse
  obtain rfl : n = 19 :=
    Position.behind_take_inj points.inside (by decide) (points.position.symm.trans rfl)
  exact ⟨hparse, points, cause⟩

end BlockConfig
