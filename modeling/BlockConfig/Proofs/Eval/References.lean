import BlockConfig.Proofs.Eval.Splicing

/-!
The three ways to refer to a variable of the environment.

A reference with a default is an expression by itself, a hole in a string, and a hole whose name has
`env.` in front of it. Each takes another way through the program: a token of its own, an expression
that is looked for first and not found, and a sign that is looked for before any expression. That no
expression is found is the point: whatever the default is, a name with a colon behind it is none,
because behind the word or number that the name begins with no rule goes on as far as the end
(`Rule.not_gives_loneExpression`).
-/

set_option autoImplicit false

namespace BlockConfig

open Text Eval

/-! ## 1. The tokens of a name -/

/-- The kinds of words and numbers, all that a text of letters, digits and underscores is cut
into. -/
def Kind.isNamePart : Kind → Bool
  | ident | number | bool | ifWord | elseIfWord | elseWord => true
  | _ => false

namespace Lexeme

variable {cs : List Char}

/-- A word is of one of the kinds that letters can make, keywords among them. -/
theorem isNamePart_wordKind (cs : List Char) : (wordKind cs).isNamePart = true := by
  unfold wordKind
  repeat' split
  all_goals rfl

/-- No digit is left behind a run of digits. -/
theorem head_dropDigits (cs : List Char) :
    ∀ x ∈ (cs.dropWhile Char.isDigit).head?, x.isDigit = false := by
  intro x hx
  have hhead := List.head?_dropWhile_not Char.isDigit cs
  rw [Option.mem_def.1 hx] at hhead
  exact hhead

/-- A number ends in front of a character that is no digit, also with a fraction. -/
theorem head_fraction (h : ∀ x ∈ cs.head?, x.isDigit = false) :
    ∀ x ∈ (fraction cs).2.head?, x.isDigit = false := by
  unfold fraction
  split
  next d cs =>
    split
    · exact head_dropDigits cs
    · exact h
  next => exact h

/-- And with an exponent; a mark with no digits behind it is not read, so it is left in front. -/
theorem head_exponent (h : ∀ x ∈ cs.head?, x.isDigit = false) :
    ∀ x ∈ (exponent cs).2.head?, x.isDigit = false := by
  unfold exponent
  split
  next e s cs =>
    split
    · exact head_dropDigits cs
    · split
      next d ds =>
        split
        · exact head_dropDigits ds
        · exact h
      next => exact h
  next => exact h

/-- A number takes all digits that it can. -/
theorem head_number (cs : List Char) : ∀ x ∈ (number cs).rest.head?, x.isDigit = false :=
  head_exponent (head_fraction (head_dropDigits cs))

/-- A colon goes on neither a word nor a number. -/
theorem stops_colon (ds : List Char) : Stops (':' :: ds) where
  name := by
    rintro _ ⟨⟩
    rfl
  point := by
    rintro _ ⟨⟩
    decide
  sign := by
    rintro _ d es ⟨⟩ hs
    rcases hs with hs | hs <;> exact absurd hs (by decide)

end Lexeme

namespace Token

/-- The token list goes on with a colon. -/
def AtColon (ts : List Token) : Prop :=
  ∃ t us, ts = t :: us ∧ t.kind = .colon

/-- A text that begins with a colon gives a colon first. -/
theorem atColon_of_listFrom {p : Position} {ds : List Char} {ts : List Token}
    (h : listFrom p (':' :: ds) = .ok ts) : AtColon ts := by
  have hcolon : Lexeme.scan ':' ds = .ok (.plain .colon [':'] ds) := by
    cases ds <;> rfl
  obtain ⟨l, _, us, hl, -, -, rfl⟩ := exists_of_listFrom_cons (c := ':') rfl h
  obtain rfl := Except.ok.inj (hl.symm.trans hcolon)
  exact ⟨_, us, rfl, rfl⟩

/-- A word in front of a colon is one token. -/
theorem exists_of_listFrom_word {p : Position} {c : Char} {cs ds : List Char} {ts : List Token}
    (hc : Lexeme.isNameStart c = true) (hcs : ∀ d ∈ cs, Lexeme.isNameRest d = true)
    (h : listFrom p (c :: (cs ++ ':' :: ds)) = .ok ts) :
    ∃ t us, ts = t :: us ∧ t.kind.isNamePart = true ∧ AtColon us := by
  obtain ⟨l, _, us, hl, -, hus, rfl⟩ := exists_of_listFrom_cons (not_isGap_of_isNameStart hc) h
  obtain rfl := Except.ok.inj (hl.symm.trans (Lexeme.scan_word hc hcs (Lexeme.stops_colon ds).name))
  exact ⟨_, us, rfl, Lexeme.isNamePart_wordKind _, atColon_of_listFrom hus⟩

/-- **A name in front of a colon is a word, a number, or a number and a word.** A digit at its beginning
makes the lexer read a number as far as it goes, and what that leaves is nothing or begins with a letter. -/
theorem exists_of_listFrom_name_colon {p : Position} {name ds : List Char} {ts : List Token}
    (hname : Hole.isVariableName name = true) (h : listFrom p (name ++ ':' :: ds) = .ok ts) :
    ∃ t u us, ts = t :: u :: us ∧ t.kind.isNamePart = true ∧
      (u.kind = .colon ∨ u.kind.isNamePart = true ∧ AtColon us) := by
  obtain ⟨hne, hall⟩ := Bool.and_eq_true_iff.1 hname
  have hempty : name ≠ [] := by
    rintro rfl
    cases hne
  obtain ⟨c, cs, rfl⟩ := List.exists_cons_of_ne_nil hempty
  rw [List.all_eq_true] at hall
  have hcs : ∀ d ∈ cs, Lexeme.isNameRest d = true := fun d hd => hall d (List.mem_cons_of_mem c hd)
  have hstart : ∀ {d : Char}, Lexeme.isNameRest d = true → d.isDigit = false →
      Lexeme.isNameStart d = true := by
    intro d hd hdigit
    simp only [Lexeme.isNameRest, Char.isAlphanum, hdigit, Bool.or_false] at hd
    exact hd
  cases hc : c.isDigit with
  | false =>
    obtain ⟨t, us, rfl, ht, u, vs, rfl, hu⟩ :=
      exists_of_listFrom_word (hstart (hall c List.mem_cons_self) hc) hcs h
    exact ⟨t, u, vs, rfl, ht, .inl hu⟩
  | true =>
    have hgap : isGap c = false := by
      refine Bool.eq_false_iff.2 fun hg => ?_
      have hblank := Lexeme.not_isNameRest_of_isBlank (isBlank_of_isGap hg)
      exact Bool.noConfusion ((hall c List.mem_cons_self).symm.trans hblank)
    have hnumber : Lexeme.scan c (cs ++ ':' :: ds) =
        .ok ((Lexeme.number (c :: cs)).before (':' :: ds)) := by
      rw [← Lexeme.number_stops (Lexeme.stops_colon ds)]
      exact Lexeme.scan_ok_iff.2 (.number hc)
    obtain ⟨l, taken, us, hl, hcut, hus, rfl⟩ := exists_of_listFrom_cons hgap h
    obtain rfl := Except.ok.inj (hl.symm.trans hnumber)
    -- What the number leaves of the name is nothing or a word.
    have hrest : ∀ d ∈ (Lexeme.number (c :: cs)).rest, Lexeme.isNameRest d = true := by
      intro d hd
      have hcs' : cs = taken ++ (Lexeme.number (c :: cs)).rest := by
        rw [Lexeme.before, ← List.append_assoc] at hcut
        exact List.append_cancel_right hcut
      refine hcs d ?_
      rw [hcs']
      exact List.mem_append_right taken hd
    have hhead := Lexeme.head_number (c :: cs)
    rw [Lexeme.before] at hus
    dsimp only at hus
    generalize (Lexeme.number (c :: cs)).rest = rest at hrest hhead hus
    cases rest with
    | nil =>
      obtain ⟨u, vs, rfl, hu⟩ := atColon_of_listFrom hus
      exact ⟨_, u, vs, rfl, rfl, .inl hu⟩
    | cons d rest =>
      have hd : Lexeme.isNameStart d = true := hstart (hrest d List.mem_cons_self) (hhead d rfl)
      obtain ⟨u, vs, rfl, hu, hvs⟩ :=
        exists_of_listFrom_word hd (fun x hx => hrest x (List.mem_cons_of_mem d hx)) hus
      exact ⟨_, u, vs, rfl, rfl, .inr ⟨hu, hvs⟩⟩

end Token

/-! ## 2. No expression -/

/-- The cursor of a token that goes on with nothing behind a word or a number and is not the end,
but for a word that may be an operator, which has a colon behind it. -/
structure Cursor.Stuck (c : Cursor) : Prop where
  quiet : ∀ k ∈ [Kind.dot, .question, .lparen, .comment, .eof], (c.peekAt 0).kind ≠ k
  operator : c.operator? ≠ none → (c.skip.peekAt 0).kind = .colon

namespace Cursor

variable {c : Cursor}

/-- At a colon nothing can be read on. -/
theorem stuck_of_colon (h : (c.peekAt 0).kind = .colon) : c.Stuck where
  quiet := by
    rw [h]
    decide
  operator := by
    intro hop
    simp [operator?, h, BinaryOp.ofKind?] at hop

/-- Nor at a word or a number with a colon behind it. -/
theorem stuck_of_isNamePart (h : (c.peekAt 0).kind.isNamePart = true)
    (hcolon : (c.skip.peekAt 0).kind = .colon) : c.Stuck where
  quiet := by
    revert h
    cases (c.peekAt 0).kind <;> decide
  operator _ := hcolon

/-- Comments are not waiting there either. -/
theorem Stuck.skipComments (h : c.Stuck) : c.skipComments = c := by
  obtain ⟨line, _ | ⟨t, ts⟩⟩ := c
  · rfl
  · exact skipComments_of_not (h.quiet .comment (by simp))

end Cursor

namespace Rule

variable {n least : Nat} {c d : Cursor} {t : Node}

/-- No operand begins with a colon. -/
theorem not_gives_unary_of_colon (hc : (c.peekAt 0).kind = .colon) :
    ¬(unary n).Gives c t d := by
  intro h
  obtain _ | _ | n := n
  · exact not_gives_exhausted _ _ _ h
  · obtain ⟨_, _, hop, -⟩ | ⟨-, _, _, h, -⟩ := (gives_unary _ _ _ _).1 h
    · rw [hc] at hop
      cases hop
    · exact not_gives_exhausted _ _ _ h
  · obtain ⟨_, _, hop, -⟩ | ⟨-, _, _, h, -⟩ := (gives_unary _ _ _ _).1 h
    · rw [hc] at hop
      cases hop
    · cases (gives_primary _ _ _ _).1 h <;> simp_all

/-- No operand begins with a colon. -/
theorem not_gives_binary_of_colon (hc : (c.peekAt 0).kind = .colon) :
    ¬(binary n least).Gives c t d := by
  intro h
  cases n with
  | zero => exact not_gives_exhausted _ _ _ h
  | succ n =>
    obtain ⟨_, _, h, -⟩ := (gives_binary _ _ _ _ _).1 h
    exact not_gives_unary_of_colon hc h

section Stuck

variable (hfirst : (c.peekAt 0).kind.isNamePart = true) (hnext : c.skip.Stuck)
include hfirst hnext

/-! Whichever rule begins with the word or the number, it is over behind it. -/

/-- An operand that begins at a word or a number in front of a colon is that one token, since no bracket
opens behind it. -/
theorem eq_skip_of_primary (h : (primary n).Gives c t d) : d = c.skip := by
  cases n with
  | zero => exact absurd h (not_gives_exhausted _ _ _)
  | succ n =>
    cases (gives_primary _ _ _ _).1 h with
    | number | bool | null | ident => rfl
    | call _ _ hparen => exact absurd hparen (hnext.quiet .lparen (by simp))
    | str hk | heredoc hk | envRef hk | group hk | list hk | entries hk | directive hk =>
      exact absurd hfirst (by rw [hk]; decide)

/-- No dot follows, so there are no members to it. -/
theorem eq_skip_of_unary (h : (unary n).Gives c t d) : d = c.skip := by
  have hunary : UnaryOp.ofKind? (c.peekAt 0).kind = none := by
    revert hfirst
    cases (c.peekAt 0).kind <;> decide
  cases n with
  | zero => exact absurd h (not_gives_exhausted _ _ _)
  | succ n =>
    obtain ⟨_, _, hop, -⟩ | ⟨-, left, e, hprimary, hmembers⟩ := (gives_unary _ _ _ _).1 h
    · exact absurd (hop.symm.trans hunary) (by simp)
    obtain rfl := eq_skip_of_primary hfirst hnext hprimary
    cases n with
    | zero => exact absurd hmembers (not_gives_exhausted _ _ _)
    | succ n =>
      obtain ⟨-, -, he⟩ | ⟨hdot, -⟩ := (gives_members _ _ _ _ _).1 hmembers
      · exact he
      · exact absurd hdot (hnext.quiet .dot (by simp))

/-- No operator follows, as an operator that is a word would need an operand where the colon stands. -/
theorem eq_skip_of_binary (h : (binary n least).Gives c t d) : d = c.skip := by
  cases n with
  | zero => exact absurd h (not_gives_exhausted _ _ _)
  | succ n =>
    obtain ⟨left, e, hleft, hclimb⟩ := (gives_binary _ _ _ _ _).1 h
    obtain rfl := eq_skip_of_unary hfirst hnext hleft
    cases n with
    | zero => exact absurd hclimb (not_gives_exhausted _ _ _)
    | succ n =>
      obtain ⟨-, -, he⟩ | ⟨op, right, e, hop, -, hright, -⟩ := (gives_climb _ _ _ _ _ _).1 hclimb
      · exact he
      · -- A word that is an operator has a colon where its right operand should be.
        exact absurd hright (not_gives_binary_of_colon (hnext.operator (by simp [hop])))

/-- And no mark of a choice follows. An expression there is one token long, and the colon is left over. -/
theorem eq_skip_of_expression (h : (expression n).Gives c t d) : d = c.skip := by
  cases n with
  | zero => exact absurd h (not_gives_exhausted _ _ _)
  | succ n =>
    obtain ⟨condition, e, hbinary, hchoice⟩ := (gives_expression _ _ _ _).1 h
    obtain rfl := eq_skip_of_binary hfirst hnext hbinary
    obtain ⟨-, -, he⟩ | ⟨hquestion, -⟩ := hchoice
    · exact he
    · exact absurd hquestion (hnext.quiet .question (by simp))

/-- So it does not go on to the end. -/
theorem not_gives_loneExpression : ¬(loneExpression n).Gives c t d := by
  intro h
  obtain ⟨e, hexpr, heof, -⟩ := (gives_loneExpression _ _ _ _).1 h
  obtain rfl := eq_skip_of_expression hfirst hnext hexpr
  rw [hnext.skipComments] at heof
  exact hnext.quiet .eof (by simp) heof

end Stuck

end Rule

/-- **A name with a colon behind it begins no expression,** whatever follows. Behind its first token the
rule is stuck, at the colon or at a word that no operator leads to. -/
theorem Node.parseExpression_name_colon {name ds : List Char} {file : String} {node : Node}
    (hname : Hole.isVariableName name = true) :
    parseExpression (String.ofList (name ++ ':' :: ds)) file ≠ .ok node := by
  intro h
  obtain ⟨ts, d, hts, hgives⟩ := Rule.readText_ok_iff.1 h
  rw [String.toList_ofList] at hts
  obtain ⟨t, u, us, rfl, ht, hu⟩ := Token.exists_of_listFrom_name_colon hname hts
  have hnext : (Cursor.skip ⟨0, t :: u :: us⟩).Stuck := by
    rcases hu with hu | ⟨hu, v, vs, rfl, hv⟩
    · exact Cursor.stuck_of_colon hu
    · exact Cursor.stuck_of_isNamePart hu hv
  exact Rule.not_gives_loneExpression (c := ⟨0, t :: u :: us⟩) ht hnext hgives

/-! ## 3. What is read -/

namespace Text

/-- The blanks at the end of a text are those behind its last character that is none. -/
theorem dropEndWhile_append_cons {p : Char → Bool} {as : List Char} (has : ∀ a ∈ as, p a = false)
    {x : Char} (hx : p x = false) (ds : List Char) :
    dropEndWhile p (as ++ x :: ds) = as ++ x :: dropEndWhile p ds := by
  induction as with
  | nil => exact dropEndWhile_cons hx ds
  | cons a as ih =>
    obtain ⟨ha, has⟩ := List.forall_mem_cons.1 has
    rw [List.cons_append, dropEndWhile_cons ha, ih has, List.cons_append]

/-- In front of a colon nothing is trimmed but blanks. -/
theorem trimChars_append_colon {as : List Char} (has : ∀ a ∈ as, isBlank a = false)
    (ds : List Char) : trimChars (as ++ ':' :: ds) = as ++ ':' :: dropEndWhile isBlank ds := by
  have hhead : ∀ c ∈ (as ++ ':' :: ds).head?, isBlank c = false := by
    cases as with
    | nil =>
      rintro _ ⟨⟩
      decide
    | cons a as =>
      rintro _ ⟨⟩
      exact has a List.mem_cons_self
  rw [trimChars, (takeWhile_of_head hhead).2, dropEndWhile_append_cons has (by decide)]

end Text

/-- A reference by itself is read as one. -/
theorem Node.parseExpression_holeText {e : String} (h : Lexeme.FitsReference e.toList)
    (file : String) :
    parseExpression (holeText e) file =
      .ok (Rule.envReference (String.ofList (trimChars e.toList))) := by
  have hlist : ∃ p, Token.list (holeText e).toList =
      .ok [⟨.envRef, String.ofList (trimChars e.toList), .start, none, none⟩, .endOfInput p] := by
    rw [holeText, String.toList_ofList]
    exact ⟨_, Token.listFrom_step rfl (Lexeme.scan_reference h []) rfl (Token.listFrom_nil _)⟩
  obtain ⟨p, hlist⟩ := hlist
  exact Rule.readText_ok_iff.2 ⟨_, _, hlist, rfl⟩

namespace Hole

variable {name ds : List Char} (hname : isVariableName name = true)
include hname

/-- The name of a variable is made of the characters of names. -/
theorem names_of_isVariableName : ∀ c ∈ name, Lexeme.isNameRest c = true :=
  List.all_eq_true.1 (Bool.and_eq_true_iff.1 hname).2

/-- None of them is a blank. -/
theorem isBlank_of_isVariableName : ∀ c ∈ name, isBlank c = false := by
  intro c hc
  refine Bool.eq_false_iff.2 fun hblank => ?_
  have hrest := names_of_isVariableName hname c hc
  exact Bool.noConfusion (hrest.symm.trans (Lexeme.not_isNameRest_of_isBlank hblank))

/-- The braces of a reference are those of its default. -/
theorem openBraces_name_colon (ds : List Char) :
    Lexeme.openBraces 0 (name ++ ':' :: ds) = Lexeme.openBraces 0 ds := by
  rw [Lexeme.openBraces_append, Lexeme.openBraces_of_names (names_of_isVariableName hname)]
  rfl

/-- Only at the end of its default blanks are trimmed. -/
theorem trimChars_name_colon (ds : List Char) :
    trimChars (name ++ ':' :: ds) = name ++ ':' :: dropEndWhile isBlank ds :=
  trimChars_append_colon (isBlank_of_isVariableName hname) ds

/-- Trimming a reference with a default takes blanks off the end of the default and nothing else. -/
theorem trimChars_env_name_colon (ds : List Char) :
    trimChars ("env.".toList ++ (name ++ ':' :: ds)) =
      "env.".toList ++ (name ++ ':' :: dropEndWhile isBlank ds) := by
  have hall : "env.".toList.all (fun a => !isBlank a) = true := rfl
  have henv : ∀ a ∈ "env.".toList, isBlank a = false := by
    simpa using List.all_eq_true.1 hall
  have hblank : ∀ a ∈ "env.".toList ++ name, isBlank a = false :=
    fun a ha => (List.mem_append.1 ha).elim (henv a) (isBlank_of_isVariableName hname a)
  rw [← List.append_assoc, trimChars_append_colon hblank, List.append_assoc]

/-- A name with a colon behind it does not begin with `env.`, even if it is `env`. -/
theorem dropPrefix?_name_colon : dropPrefix? "env.".toList (name ++ ':' :: ds) = none := by
  have hpoint : '.' ∉ name := fun hm => absurd (names_of_isVariableName hname _ hm) (by decide)
  cases henv : dropPrefix? "env.".toList (name ++ ':' :: ds) with
  | none => rfl
  | some rest =>
    have happend := dropPrefix?_eq_some_iff.1 henv
    obtain ⟨as, has, hds⟩ | ⟨bs, hbs, -⟩ := List.append_eq_append_iff.1 happend
    · cases as with
      | nil =>
        rw [List.append_nil] at has
        exact absurd (by rw [← has]; decide) hpoint
      | cons x as =>
        obtain rfl := (List.cons.inj hds).1
        have hcolon : ':' ∈ "env.".toList := by
          rw [has]
          simp
        exact absurd hcolon (by decide)
    · exact absurd (by rw [hbs]; simp) hpoint

/-- Where no expression is found, the name and the default are. -/
theorem read_name_colon (file : String) :
    read (name ++ ':' :: ds) file = .reference (String.ofList name) (String.ofList ds) := by
  have hempty : ¬(name ++ ':' :: ds).isEmpty = true := by simp
  have htrim : trimChars name = name :=
    Lexeme.trimChars_of_names (names_of_isVariableName hname)
  cases hparse : Node.parseExpression (String.ofList (name ++ ':' :: ds)) file with
  | ok node => exact absurd hparse (Node.parseExpression_name_colon hname)
  | error e =>
    rw [read, if_neg hempty]
    simp only [dropPrefix?_name_colon hname, hparse, splitOnce_append (colon_not_mem hname), htrim,
      hname, if_true]

/-- Behind `env.` they are looked for at once. -/
theorem read_env_name_colon (file : String) :
    read ("env.".toList ++ (name ++ ':' :: ds)) file =
      .reference (String.ofList name) (String.ofList ds) := by
  have htrim : trimChars name = name :=
    Lexeme.trimChars_of_names (names_of_isVariableName hname)
  have henv : dropPrefix? "env.".toList ("env.".toList ++ (name ++ ':' :: ds)) =
      some (name ++ ':' :: ds) := dropPrefix?_eq_some_iff.2 rfl
  rw [read, if_neg (by simp)]
  simp only [henv, splitOnce_append (colon_not_mem hname), Option.getD_some, htrim]

end Hole

/-- And so they are in the token of a reference. -/
theorem Rule.envReference_name_colon {name ds : List Char}
    (hname : Hole.isVariableName name = true) :
    envReference (String.ofList (name ++ ':' :: ds)) =
      .envRef (String.ofList name) (some (String.ofList ds)) := by
  have hnames := Hole.names_of_isVariableName hname
  simp only [envReference, String.toList_ofList, splitOnce_append (Hole.colon_not_mem hname),
    Lexeme.trimChars_of_names hnames, Lexeme.dropPrefix?_of_names hnames, Option.getD_none]

/-! ## 4. What it gives -/

namespace Node

/-- A reference with a default gives what the environment has for the name, or the default; it always
succeeds and leaves the state alone. -/
theorem evalWith_envRef (src : Source) (hooks : Hooks) (name default : String) (s : State) :
    (envRef name (some default)).evalWith src hooks s =
      (.ok (.str ((src.engine.settings.envValue? s.world.host name).getD default)), s) :=
  rfl

/-- A string that is nothing but a reference has the value of the reference. -/
theorem evalWith_holeText_reference {src : Source} {e name default : String} (q : Char)
    (hfits : Lexeme.FitsReference e.toList)
    (h : Hole.read (trimChars e.toList) src.file = .reference name default) (hooks : Hooks) :
    (literal (.str (holeText e) q none)).evalWith src hooks =
      (envRef name (some default)).evalWith src hooks := by
  simp only [evalWith, literalValue, interpolate_holeText hfits, fillHole, h, bind_assoc, pure_bind,
    Option.getD_some]

/-- **The forms of a reference agree.** A name of letters, digits and underscores and, behind a
colon, a default whose braces are balanced are read as a reference by themselves, as the hole of a
string, and as the hole of a string with `env.` in front of them. All three have the same text for
their value, wherever they stand: that of the variable, or the default without the blanks at its
end if there is no such variable. -/
theorem evalWith_reference_forms {name default : String}
    (hname : Hole.isVariableName name.toList = true)
    (hbraces : Lexeme.openBraces 0 default.toList = some 0) {q : Char}
    (hq : Lexeme.isQuote q = true) (file : String) :
    ∃ bare plain prefixed,
      parseExpression (holeText (name ++ ":" ++ default)) file = .ok bare ∧
      parseExpression (holeSource q (name ++ ":" ++ default)) file = .ok plain ∧
      parseExpression (holeSource q ("env." ++ name ++ ":" ++ default)) file = .ok prefixed ∧
      ∀ (src : Source) (hooks : Hooks) (s : State), ∃ text,
        text = (src.engine.settings.envValue? s.world.host name).getD
          (String.ofList (dropEndWhile isBlank default.toList)) ∧
        bare.evalWith src hooks s = (.ok (.str text), s) ∧
        plain.evalWith src hooks s = (.ok (.str text), s) ∧
        prefixed.evalWith src hooks s = (.ok (.str text), s) := by
  have htext : (name ++ ":" ++ default).toList = name.toList ++ ':' :: default.toList := by simp
  have htext' : ("env." ++ name ++ ":" ++ default).toList =
      "env.".toList ++ (name.toList ++ ':' :: default.toList) := by simp
  have hfits : Lexeme.FitsReference (name ++ ":" ++ default).toList := by
    rw [Lexeme.fitsReference_iff, htext, Hole.openBraces_name_colon hname, hbraces]
  have hfits' : Lexeme.FitsReference ("env." ++ name ++ ":" ++ default).toList := by
    have henv : Lexeme.openBraces 0 "env.".toList = some 0 := rfl
    rw [Lexeme.fitsReference_iff, htext', Lexeme.openBraces_append, henv, Option.bind_some,
      Hole.openBraces_name_colon hname, hbraces]
  -- The braces are balanced, so each form is cut and read as a whole.
  refine ⟨_, _, _, parseExpression_holeText hfits file, parseExpression_holeSource hfits hq,
    parseExpression_holeSource hfits' hq, fun src hooks s => ⟨_, rfl, ?_, ?_, ?_⟩⟩
  · rw [htext, Hole.trimChars_name_colon hname, Rule.envReference_name_colon hname,
      String.ofList_toList]
    exact evalWith_envRef src hooks name _ s
  · have hread : Hole.read (trimChars (name ++ ":" ++ default).toList) src.file =
        .reference name (String.ofList (dropEndWhile isBlank default.toList)) := by
      rw [htext, Hole.trimChars_name_colon hname, Hole.read_name_colon hname, String.ofList_toList]
    rw [evalWith_holeText_reference q hfits hread]
    exact evalWith_envRef src hooks name _ s
  · have hread : Hole.read (trimChars ("env." ++ name ++ ":" ++ default).toList) src.file =
        .reference name (String.ofList (dropEndWhile isBlank default.toList)) := by
      rw [htext', Hole.trimChars_env_name_colon hname, Hole.read_env_name_colon hname,
        String.ofList_toList]
    rw [evalWith_holeText_reference q hfits' hread]
    exact evalWith_envRef src hooks name _ s

/-- A name that is a number and an operator, and a default with braces, quotation marks and a blank
at its end. -/
theorem evalWith_reference_forms_operator :
    Hole.isVariableName "1add".toList = true ∧
      Lexeme.openBraces 0 "\x7b'\x7d ".toList = some 0 ∧ Lexeme.isQuote '\'' = true ∧
      ∃ bare plain prefixed,
        parseExpression (holeText "1add:\x7b'\x7d ") "f" = .ok bare ∧
        parseExpression (holeSource '\'' "1add:\x7b'\x7d ") "f" = .ok plain ∧
        parseExpression (holeSource '\'' "env.1add:\x7b'\x7d ") "f" = .ok prefixed ∧
        ∀ (src : Source) (hooks : Hooks) (s : State),
          src.engine.settings.envValue? s.world.host "1add" = none →
          bare.evalWith src hooks s = (.ok (.str "\x7b'\x7d"), s) ∧
          plain.evalWith src hooks s = (.ok (.str "\x7b'\x7d"), s) ∧
          prefixed.evalWith src hooks s = (.ok (.str "\x7b'\x7d"), s) := by
  have hname : Hole.isVariableName "1add".toList = true := rfl
  have hbraces : Lexeme.openBraces 0 "\x7b'\x7d ".toList = some 0 := rfl
  have hq : Lexeme.isQuote '\'' = true := rfl
  refine ⟨hname, hbraces, hq, ?_⟩
  obtain ⟨bare, plain, prefixed, hbare, hplain, hprefixed, hvalue⟩ :=
    evalWith_reference_forms hname hbraces hq "f"
  refine ⟨bare, plain, prefixed, hbare, hplain, hprefixed, fun src hooks s hnone => ?_⟩
  obtain ⟨text, rfl, h⟩ := hvalue src hooks s
  rw [hnone] at h
  exact h

end Node

end BlockConfig
