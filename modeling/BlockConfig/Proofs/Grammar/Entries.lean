import BlockConfig.Engine
import BlockConfig.Proofs.Grammar.Braces
import BlockConfig.Proofs.Grammar.Uncommented
import BlockConfig.Proofs.Lexing.Pieces
import BlockConfig.Proofs.Lexing.Separated

/-!
Commas and semicolons in a map literal.

The entries of a map literal are flags and assignments. A semicolon behind an entry ends it whatever
the entry is, so the literal with semicolons is the map of its entries. A comma ends an assignment
as well, because it has one target and then one value. But behind a flag it may go on: `a, b = 1` is
an assignment to two targets. So the literal with commas is the same map if and only if no flag
stands in front of an assignment (`Entry.parseExpression_literal`).

An expression that ends with a comment up to the end of its line, or with the last line of a
heredoc, takes every separator in. It has to be `Separable`.
-/

set_option autoImplicit false

namespace BlockConfig

open Text Cursor Rule Node

/-- An entry of a map literal with the gaps around its name, which is a flag or has an expression
assigned to it. -/
structure Entry where
  indent : String
  key : String
  gap : String
  value? : Option String
deriving DecidableEq, Repr

namespace Entry

/-- The text of an entry. -/
def text (e : Entry) : List Char :=
  e.indent.toList ++ e.key.toList ++ e.gap.toList ++
    match e.value? with
    | none => []
    | some v => '=' :: v.toList

/-- The text of entries with a separator between them, and of the brace behind them. -/
def inside (separator : Char) (es : List Entry) : List Char :=
  joinWith [separator] (es.map text) ++ ['}']

/-- The map literal of entries with a separator between them. -/
def literal (separator : Char) (es : List Entry) : String :=
  String.ofList ('{' :: inside separator es)

/-- The parts of an entry are what they should be, and its expression can be read alone. -/
structure Fits (file : String) (e : Entry) : Prop where
  indent : ∀ c ∈ e.indent.toList, isGap c = true
  key : IsIdentifier e.key
  gap : ∀ c ∈ e.gap.toList, isGap c = true
  value : ∀ v ∈ e.value?, (∃ node, parseExpression v file = .ok node) ∧ Separable v.toList

/-- The statement that an entry is. -/
inductive Makes (file : String) : Entry → Node → Prop
  | flag {indent key gap : String} {pos : Position} :
      Makes file ⟨indent, key, gap, none⟩ (.assign ⟨key, pos⟩ (.literal (.bool true)) .flag)
  | assign {indent key gap v : String} {node : Node} {pos : Position} {m : Displacement}
      (h : parseExpression v file = .ok node) :
      Makes file ⟨indent, key, gap, some v⟩
        (.assign ⟨key, pos⟩ (node.mapPos (Position.moved m)) .equals)

/-- An entry is neither a block nor a comment. -/
theorem Makes.not_block {file : String} {e : Entry} {node : Node} (h : Makes file e node) :
    node.isBlock = false ∧ node.isComment = false := by
  cases h <;> exact ⟨rfl, rfl⟩

/-- No flag stands in front of an assignment. -/
def FlagsLast (es : List Entry) : Prop :=
  es.IsChain fun e e' => e.value? = none → e'.value? = none

/-! ## 1. The tokens of an entry -/

/-- A gap in front of a loose place is one. -/
theorem loose_gap {gap rest : List Char} (hgap : ∀ c ∈ gap, isGap c = true) (h : Loose rest) :
    Loose (gap ++ rest) := by
  cases gap with
  | nil => exact h
  | cons c cs =>
    have hc := hgap c List.mem_cons_self
    refine loose_cons (Lexeme.not_isNameRest_of_isBlank (isBlank_of_isGap hc)) ?_
    rintro rfl
    exact absurd hc (by decide)

/-- So is a separator or the brace. -/
theorem loose_of_opensSeparator {rest : List Char} (h : OpensSeparator rest) : Loose rest := by
  obtain ⟨m, more, rfl, hm⟩ := h
  rcases hm with rfl | rfl | rfl <;> exact loose_cons rfl (by decide)

/-- The name of an entry with the gaps around it. -/
theorem cuts_key {file : String} {e : Entry} (fits : e.Fits file) (pos : Position) :
    ∃ t : Token, t.kind = .ident ∧ t.literal = e.key ∧
      Cuts Loose pos (e.indent.toList ++ e.key.toList ++ e.gap.toList) [t] := by
  have hindent : Cuts Anything pos e.indent.toList [] := cuts_gap fits.indent
  obtain ⟨t, ht, -, hkey⟩ := cuts_word (pos.advance e.indent.toList) fits.key
  have hgap : Cuts Loose (pos.advance (e.indent.toList ++ e.key.toList)) e.gap.toList [] :=
    cuts_gap fits.gap
  refine ⟨t, ht.1, ht.2, ?_⟩
  exact (hindent.append hkey fun _ _ => trivial).append hgap fun rest hrest =>
    loose_gap fits.gap hrest

theorem scan_equals (cs : List Char) : Lexeme.scan '=' cs = Lexeme.mark '=' cs := by
  cases cs <;> rfl

/-- An equals sign is read alone if none stands behind it. -/
theorem cuts_equals (pos : Position) :
    Cuts (fun rest => ∀ c ∈ rest.head?, c ≠ '=') pos ['='] [⟨.assign, "=", pos, none, none⟩] := by
  refine cuts_lexeme rfl fun rest hrest => ?_
  rw [List.nil_append, scan_equals]
  refine Lexeme.mark_ok_iff.2 (.inl ⟨.assign, rfl, fun d hd => ?_, rfl⟩)
  have hne := hrest d hd
  unfold Lexeme.pairKind?
  split
  all_goals first | rfl | exact absurd rfl hne | simp_all

/-- The marks that part entries and the brace behind them. -/
theorem cuts_separator {m : Char} {k : Kind}
    (h : m = ',' ∧ k = .comma ∨ m = ';' ∧ k = .semicolon ∨ m = '}' ∧ k = .rbrace)
    (pos : Position) : Cuts Anything pos [m] [⟨k, k.symbol, pos, none, none⟩] := by
  rcases h with ⟨rfl, rfl⟩ | ⟨rfl, rfl⟩ | ⟨rfl, rfl⟩
  all_goals exact cuts_lexeme rfl fun rest _ => by cases rest <;> rfl

/-- No text of an expression begins with an equals sign. -/
theorem ne_equals_of_parseExpression {v file : String} {node : Node}
    (h : parseExpression v file = .ok node) : ∀ c ∈ v.toList.head?, c ≠ '=' := by
  obtain ⟨ts, d, hts, hgives⟩ := readText_ok_iff.1 h
  obtain ⟨e, hexpression, -⟩ := (gives_loneExpression _ _ _ _).1 hgives
  have hno := not_sign_of_expression hexpression
  rintro c hc rfl
  obtain ⟨cs, hv⟩ : ∃ cs, v.toList = '=' :: cs := by
    cases hv : v.toList with
    | nil =>
      rw [hv] at hc
      cases hc
    | cons x xs =>
      rw [hv] at hc
      exact ⟨xs, by rw [Option.some.inj hc]⟩
  rw [hv, Token.list] at hts
  obtain ⟨l, -, us, hl, -, -, rfl⟩ := Token.exists_of_listFrom_cons rfl hts
  rw [scan_equals] at hl
  -- Whether one sign or two are read, no expression begins with that.
  rcases Lexeme.mark_ok_iff.1 hl with ⟨k, hk, -, rfl⟩ | ⟨x, xs, k, -, hk, rfl⟩
  · obtain rfl : Kind.assign = k := Option.some.inj hk
    exact hno.1 rfl
  · have heq : k = .eq := by
      unfold Lexeme.pairKind? at hk
      split at hk
      all_goals simp_all
    subst heq
    exact hno.2 rfl

/-- The text behind an equals sign does not begin with another one. -/
theorem not_equals_behind {v file : String} {node : Node} {rest : List Char}
    (h : parseExpression v file = .ok node) (hrest : OpensSeparator rest) :
    ∀ c ∈ (v.toList ++ rest).head?, c ≠ '=' := by
  intro c hc
  cases hv : v.toList with
  | nil =>
    rw [hv] at hc
    obtain ⟨m, more, rfl, hm⟩ := hrest
    obtain rfl := Option.some.inj hc
    rintro rfl
    exact absurd hm (by decide)
  | cons x xs =>
    rw [hv] at hc
    exact ne_equals_of_parseExpression h c (by rw [hv]; exact hc)

/-- An expression that can be read alone is read of tokens into which its text is cut in front of a
separator as well. Behind it there may be comments. -/
theorem exists_expression {v file : String} {node : Node} (h : parseExpression v file = .ok node)
    (hseparable : Separable v.toList) :
    ∃ n init eof front d, eof.kind = .eof ∧
      (Rule.expression n).Gives (.ofTokens (init ++ [eof])) node d ∧ d.rest = front ++ [eof] ∧
      (∀ t ∈ front, t.kind = .comment) ∧
      ∀ m, Cuts OpensSeparator (Position.start.moved m) v.toList (init.map (Token.moved m)) := by
  obtain ⟨tokens, d, htokens, hlone⟩ := readText_ok_iff.1 h
  obtain ⟨init, last, rfl, hcuts⟩ := Token.cuts_of_separable htokens hseparable
  obtain ⟨init', last', hinit', hlast, hinner, -⟩ := Token.ended_of_list htokens
  obtain ⟨rfl, rfl⟩ : init = init' ∧ Token.endOfInput last = last' := by
    simpa using List.append_inj' hinit' rfl
  obtain ⟨d, front, hexpression, hd, hfront⟩ := exists_of_loneExpression hinner hlast hlone
  exact ⟨_, init, _, front, d, hlast, hexpression, hd, hfront, hcuts⟩

/-! ## 2. An entry in front of others -/

/-- The tokens `ts` of an entry are read as the statement that it is and the comments behind its
expression. -/
structure ReadsAs (file : String) (e : Entry) (ts : List Token) (node : Node)
    (behind : List Node) : Prop where
  makes : Makes file e node
  comments : ∀ n ∈ behind, n.isComment = true
  flag : e.value? = none → ∃ t, ts = [t] ∧ t.kind = .ident
  assign : e.value? ≠ none → ∃ t sign rest, ts = t :: sign :: rest ∧ t.kind = .ident ∧
    sign.kind = .assign
  begins : ∀ {us}, Separates us → (e.value? = none → targetList? (ts ++ us) = none) →
    BeginsWith (ts ++ us) (node :: behind) us

/-- The statements other than comments. -/
theorem ReadsAs.filter_append {file : String} {e : Entry} {ts : List Token} {node : Node}
    {behind : List Node} (h : e.ReadsAs file ts node behind) (others : List Node) :
    (node :: (behind ++ others)).filter (fun n => !n.isComment) =
      node :: others.filter fun n => !n.isComment := by
  have hbehind : behind.filter (fun n => !n.isComment) = [] := by
    refine List.filter_eq_nil_iff.2 fun n hn => ?_
    simp [h.comments n hn]
  rw [List.filter_cons_of_pos (by simp [h.makes.not_block.2]), List.filter_append, hbehind]
  rfl

/-- A flag is one token, its name. -/
theorem exists_readsAs_flag {file : String} {e : Entry} (fits : e.Fits file)
    (hvalue : e.value? = none) (pos : Position) : ∃ ts node,
      e.ReadsAs file ts node [] ∧ Cuts OpensSeparator pos e.text ts := by
  obtain ⟨t, ht, hname, hcuts⟩ := cuts_key fits pos
  refine ⟨[t], Node.assign ⟨e.key, t.pos⟩ (.literal (.bool true)) .flag,
    ⟨?_, by simp, fun _ => ⟨t, rfl, ht⟩, fun h => absurd hvalue h, ?_⟩, ?_⟩
  · obtain ⟨indent, key, gap, _⟩ := e
    obtain rfl := hvalue
    exact .flag
  · intro us hus htargets
    rw [← hname]
    exact beginsWith_flag ht hus (htargets hvalue)
  · have htext : e.text = e.indent.toList ++ e.key.toList ++ e.gap.toList := by
      rw [text, hvalue, List.append_nil]
    rw [htext]
    exact hcuts.mono fun rest hrest => loose_of_opensSeparator hrest

/-- An assignment is its name, the sign and the tokens of its expression. That expression was read from a
text of its own, so its tokens stand elsewhere now, and the tree is the same with its positions moved.
Comments behind the expression become statements of the map. -/
theorem exists_readsAs_assign {file v : String} {e : Entry} (fits : e.Fits file)
    (hvalue : e.value? = some v) (front : List Char) : ∃ ts node behind,
      e.ReadsAs file ts node behind ∧
        Cuts OpensSeparator (Position.behind front) e.text ts := by
  obtain ⟨⟨node, hparse⟩, hseparable⟩ := fits.value v hvalue
  obtain ⟨t, ht, hname, hkey⟩ := cuts_key fits (Position.behind front)
  obtain ⟨n, init, eof, comments, d, heof, hexpression, hd, hcomments, hcuts⟩ :=
    exists_expression hparse hseparable
  have htext : e.text = e.indent.toList ++ e.key.toList ++ e.gap.toList ++ ('=' :: v.toList) := by
    rw [text, hvalue]
  generalize e.indent.toList ++ e.key.toList ++ e.gap.toList = name at hkey htext
  -- The expression stands behind the equals sign, on the line of the sign.
  have hsign := cuts_equals ((Position.behind front).advance name)
  generalize hplace : ((Position.behind front).advance name).advance ['='] = place
  have hbehind : place = Position.behind (front ++ name ++ ['=']) := by
    rw [← hplace, Position.behind_advance, Position.behind_advance]
  have hmoved : Position.start.moved (.upTo place) = place := by
    rw [hbehind]
    exact Position.start_moved_upTo (Nat.le_add_right 1 _) (Nat.le_add_right 1 _)
  have hline : ((Position.behind front).advance name).line =
      1 + (Displacement.upTo place).lines := by
    rw [Displacement.upTo, ← hplace, Position.line_advance _ ['=']]
    have := Position.line_le_advance (Position.behind front) name
    have : 1 ≤ (Position.behind front).line := Nat.le_add_right 1 _
    simp
    omega
  have hvalueCuts := hcuts (.upTo place)
  rw [hmoved] at hvalueCuts
  refine ⟨t :: ⟨.assign, "=", (Position.behind front).advance name, none, none⟩ ::
      init.map (Token.moved (.upTo place)),
    Node.assign ⟨e.key, t.pos⟩ (node.mapPos (Position.moved (.upTo place))) .equals,
    comments.map fun t => Node.comment t.literal,
    ⟨?_, ?_, ?_, fun _ => ⟨_, _, _, rfl, ht, rfl⟩, ?_⟩, ?_⟩
  · obtain ⟨indent, key, gap, _⟩ := e
    obtain rfl := hvalue
    exact .assign hparse
  · simp [isComment]
  · exact fun h => absurd (hvalue.symm.trans h) (Option.some_ne_none v)
  · intro us hus _
    rw [← hname]
    exact beginsWith_assign ht rfl hline hus hexpression heof hd hcomments
  · subst hplace
    have hassign := hsign.append hvalueCuts fun rest => not_equals_behind hparse
    rw [htext]
    exact hkey.append hassign fun rest _ => loose_cons rfl (by decide)

/-- Both kinds of entries are read as the statements that they are, wherever they stand. -/
theorem exists_readsAs {file : String} {e : Entry} (fits : e.Fits file) (front : List Char) :
    ∃ ts node behind, e.ReadsAs file ts node behind ∧
      Cuts OpensSeparator (Position.behind front) e.text ts := by
  cases hvalue : e.value? with
  | none =>
    obtain ⟨ts, node, hreads, hcuts⟩ := exists_readsAs_flag fits hvalue (Position.behind front)
    exact ⟨ts, node, [], hreads, hcuts⟩
  | some v => exact exists_readsAs_assign fits hvalue front

/-! ## 3. Entries one after another -/

/-- The separators, with the kinds of their tokens. -/
def Separator (m : Char) (k : Kind) : Prop :=
  m = ',' ∧ k = .comma ∨ m = ';' ∧ k = .semicolon

variable {separator : Char} {k : Kind} {pos : Position} {file : String} {e e' : Entry}
  {es : List Entry} {ts us : List Token} {node : Node} {behind ns : List Node} {last : Token}

/-- Behind each entry stands a separator or the brace. -/
theorem exists_inside_eq (hs : Separator separator k) (e : Entry) (es : List Entry) :
    ∃ rest, OpensSeparator rest ∧ inside separator (e :: es) = e.text ++ rest := by
  cases es with
  | nil => exact ⟨['}'], ⟨'}', [], rfl, .inr (.inr rfl)⟩, rfl⟩
  | cons e' es =>
    refine ⟨separator :: inside separator (e' :: es), ⟨separator, _, rfl, ?_⟩, ?_⟩
    · rcases hs with ⟨rfl, -⟩ | ⟨rfl, -⟩ <;> simp
    · simp [inside, joinWith]

/-- The text of several entries is that of the first, a separator and that of the others. -/
theorem inside_cons (separator : Char) (e e' : Entry) (es : List Entry) :
    inside separator (e :: e' :: es) = e.text ++ [separator] ++ inside separator (e' :: es) := by
  simp [inside, joinWith]

/-- An entry and the separator behind it. -/
theorem cuts_separated (hs : Separator separator k) (hcuts : Cuts OpensSeparator pos e.text ts) :
    Cuts Anything pos (e.text ++ [separator])
      (ts ++ [⟨k, k.symbol, pos.advance e.text, none, none⟩]) := by
  refine hcuts.append (cuts_separator (hs.imp_right .inl) _) fun rest _ =>
    ⟨separator, rest, rfl, ?_⟩
  rcases hs with ⟨rfl, -⟩ | ⟨rfl, -⟩ <;> simp

/-- The separators with which every entry of a list ends where it is written to end. -/
def EndedBy (es : List Entry) (separator : Char) : Prop :=
  separator = ';' ∨ separator = ',' ∧ FlagsLast es

/-- The text of some entries and the brace behind them, standing at `pos`, is cut into `us` and read
as the statements `ns`. -/
structure Row (separator : Char) (pos : Position) (es : List Entry) (ns : List Node)
    (us : List Token) (last : Token) : Prop where
  list : Token.listFrom pos (inside separator es) = .ok us
  reads : ReadsTo us ns last
  eof : last.kind = .eof
  targets : (∀ e ∈ es.head?, e.value? = none) → targetList? us = none

/-- Of no entries there is the brace. -/
theorem exists_row_nil (separator : Char) (pos : Position) :
    ∃ t last, t.kind = .rbrace ∧ Row separator pos [] [] [t, last] last := by
  have hcut := (cuts_separator (.inr (.inr ⟨rfl, rfl⟩)) pos).cut [] (anything _)
  rw [Token.listFrom_nil] at hcut
  exact ⟨_, _, rfl, hcut, readsTo_close rfl rfl, rfl, fun _ => rfl⟩

/-- An entry that stands alone is ended by the brace. -/
theorem exists_row_singleton (h : e.ReadsAs file ts node behind)
    (hcuts : Cuts OpensSeparator pos e.text ts) :
    ∃ us last, Row separator pos [e] (node :: behind) us last := by
  obtain ⟨t, last, ht, hrow⟩ := exists_row_nil separator (pos.advance e.text)
  have hus : Separates [t, last] := ⟨t, [last], rfl, .inr (.inr ht)⟩
  have htargets : e.value? = none → targetList? (ts ++ [t, last]) = none := by
    intro hflag
    obtain ⟨u, rfl, hu⟩ := h.flag hflag
    simp [targetList?, ht]
  have hreads := hrow.reads.append (h.begins hus htargets) fun line =>
    ended_append ts (hrow.reads.ended line)
  rw [List.append_nil] at hreads
  refine ⟨ts ++ [t, last], last, ?_, hreads, hrow.eof, fun hhead => htargets (hhead e rfl)⟩
  have hopens : OpensSeparator ['}'] := ⟨'}', [], rfl, .inr (.inr rfl)⟩
  show Token.listFrom pos (e.text ++ ['}']) = _
  rw [hcuts.cut _ hopens, show Token.listFrom _ ['}'] = .ok [t, last] from hrow.list]
  rfl

/-- Behind an entry stands a separator with other entries. -/
theorem exists_row_cons (h : e.ReadsAs file ts node behind)
    (hcuts : Cuts OpensSeparator pos e.text ts) (hended : EndedBy (e :: e' :: es) separator)
    (hrow : Row separator (pos.advance (e.text ++ [';'])) (e' :: es) ns us last) :
    ∃ us last, Row separator pos (e :: e' :: es) (node :: (behind ++ ns)) us last := by
  obtain ⟨k, hs⟩ : ∃ k, Separator separator k := by
    rcases hended with rfl | ⟨rfl, -⟩
    · exact ⟨.semicolon, .inr ⟨rfl, rfl⟩⟩
    · exact ⟨.comma, .inl ⟨rfl, rfl⟩⟩
  -- The two separators are as wide as each other.
  have hplace : pos.advance (e.text ++ [separator]) = pos.advance (e.text ++ [';']) := by
    rw [Position.advance_append, Position.advance_append]
    rcases hs with ⟨rfl, -⟩ | ⟨rfl, -⟩ <;> rfl
  have hlist := (cuts_separated hs hcuts).cut _ (anything (inside separator (e' :: es)))
  rw [← inside_cons, hplace, hrow.list] at hlist
  generalize ht : (⟨k, k.symbol, pos.advance e.text, none, none⟩ : Token) = t at hlist
  have hkind : t.kind = k := by rw [← ht]
  have hseparator : t.kind = .comma ∨ t.kind = .semicolon := by
    rw [hkind]
    exact hs.imp And.right And.right
  have hus : Separates (t :: us) := ⟨t, us, rfl, hseparator.imp_right .inl⟩
  have htargets : e.value? = none → targetList? (ts ++ t :: us) = none := by
    intro hflag
    obtain ⟨u, rfl, hu⟩ := h.flag hflag
    rcases hended with rfl | ⟨rfl, hlast⟩
    · obtain ⟨hno, -⟩ | ⟨-, rfl⟩ := hs
      · exact absurd hno (by decide)
      · simp [targetList?, hkind]
    · -- Another flag follows, and no list of targets begins with it.
      have htail := hrow.targets fun x hx => by
        obtain rfl := Option.some.inj hx
        exact (List.isChain_cons_cons.1 hlast).1 hflag
      obtain ⟨-, rfl⟩ | ⟨hno, -⟩ := hs
      · simp [targetList?, hkind, htail]
      · exact absurd hno (by decide)
  have hothers := hrow.reads.separator hseparator
  refine ⟨ts ++ t :: us, last, ?_, hothers.append (h.begins hus htargets) fun line =>
    ended_append ts (hothers.ended line), hrow.eof, fun hhead => htargets (hhead e rfl)⟩
  rw [hlist, List.append_cons ts t us]
  rfl

/-- Entries with a separator between them are read one after the other, as the statements that they make.
The statements do not depend on which separator it is, which is what makes the two ways of writing a map
equal; with a comma this holds as long as no flag stands in front of an assignment. -/
theorem exists_row (fits : ∀ e ∈ es, e.Fits file) (front : List Char) : ∃ ns,
    List.Forall₂ (Makes file) es (ns.filter fun n => !n.isComment) ∧ ns.any isBlock = false ∧
      ∀ separator, EndedBy es separator →
        ∃ us last, Row separator (Position.behind front) es ns us last := by
  induction es generalizing front with
  | nil =>
    refine ⟨[], .nil, rfl, fun separator _ => ?_⟩
    obtain ⟨t, last, -, hrow⟩ := exists_row_nil separator (Position.behind front)
    exact ⟨_, last, hrow⟩
  | cons e es ih =>
    obtain ⟨hfits, fits⟩ := List.forall_mem_cons.1 fits
    obtain ⟨ts, node, behind, h, hcuts⟩ := exists_readsAs hfits front
    have hfilter := h.filter_append
    have hblock : (node :: behind).any isBlock = false := by
      refine List.any_eq_false.2 fun n hn => ?_
      rcases List.mem_cons.1 hn with rfl | hn
      · simp [h.makes.not_block.1]
      · simp [isBlock_of_isComment (h.comments n hn)]
    cases es with
    | nil =>
      refine ⟨node :: behind, ?_, hblock, fun separator _ => exists_row_singleton h hcuts⟩
      rw [← List.append_nil behind, hfilter]
      exact .cons h.makes .nil
    | cons e' es =>
      obtain ⟨ns, hmakes, hnone, hrow⟩ := ih fits (front ++ (e.text ++ [';']))
      refine ⟨node :: (behind ++ ns), ?_, ?_, fun separator hended => ?_⟩
      · rw [hfilter]
        exact .cons h.makes hmakes
      · rw [← List.cons_append, List.any_append, hblock, hnone]
        rfl
      · obtain ⟨us, last, row⟩ := hrow separator (hended.imp_right fun h =>
          ⟨h.1, (List.isChain_cons_cons.1 h.2).2⟩)
        rw [← Position.behind_advance] at row
        exact exists_row_cons h hcuts hended row

/-! ## 4. Flags in front of assignments -/

/-- Tokens that were cut from a text end with the end of input. -/
theorem ended_of_listFrom {front cs : List Char}
    (h : Token.listFrom (Position.behind front) cs = .ok us) (line : Nat) :
    Cursor.Ended ⟨line, us⟩ := by
  obtain ⟨init, -, rfl, -⟩ := Token.covers_of_listFrom h
  exact ⟨⟨_, List.getLast?_concat, rfl⟩, fun _ _ => trivial⟩

/-- What is read of a flag with a comma behind it is a flag only if no list of targets begins with
it. -/
theorem targetList?_eq_none_of_makes {n line : Nat} {context : String} {d : Cursor} {t u : Token}
    (ht : t.kind = .ident) (hu : u.kind = .comma) (hflag : e.value? = none)
    (h : (bodyItems n context).Gives ⟨line, t :: u :: us⟩ ns d)
    (hmakes : List.Forall₂ (Makes file) (e :: es) (ns.filter fun n => !n.isComment)) :
    targetList? (t :: u :: us) = none := by
  by_contra htargets
  obtain _ | n := n
  · exact absurd h (not_gives_exhausted _ _ _)
  rw [gives_bodyItems, skipSeparators_of_not (by simp [ht])] at h
  obtain ⟨hbrace, -⟩ | ⟨-, -, first, _, others, hs, -, rfl⟩ := h
  · exact absurd (ht.symm.trans hbrace) (by decide)
  · obtain ⟨pairs, rfl⟩ | ⟨targets, source, rfl⟩ := several_of_targetList? ht hu hs htargets
    all_goals
      rw [List.filter_cons_of_pos rfl] at hmakes
      cases hmakes with
      | cons hmakes _ => cases hmakes

/-- **Behind a flag commas go on:** if the entries are read where commas part them, no flag stands
in front of an assignment. -/
theorem flagsLast_of_reads (fits : ∀ e ∈ es, e.Fits file) {front : List Char}
    (hlist : Token.listFrom (Position.behind front) (inside ',' es) = .ok us) {n line : Nat}
    {context : String} {d : Cursor} (h : (bodyItems n context).Gives ⟨line, us⟩ ns d)
    (hmakes : List.Forall₂ (Makes file) es (ns.filter fun n => !n.isComment)) : FlagsLast es := by
  induction es generalizing front us n line ns with
  | nil => exact .nil
  | cons e es ih =>
    cases es with
    | nil => exact .singleton e
    | cons e' es =>
      obtain ⟨hfits, fits⟩ := List.forall_mem_cons.1 fits
      obtain ⟨ts, node, behind, hreads, hcuts⟩ := exists_readsAs hfits front
      have hended := ended_of_listFrom hlist line
      rw [inside_cons] at hlist
      obtain ⟨us', hothers, rfl⟩ :=
        (cuts_separated (.inl ⟨rfl, rfl⟩) hcuts).exists_behind (anything _) hlist
      rw [Position.behind_advance] at hothers
      rw [List.append_assoc, List.singleton_append] at h hended
      generalize ht : (⟨.comma, Kind.comma.symbol, _, none, none⟩ : Token) = t at h hended
      have hcomma : t.kind = .comma := by rw [← ht]
      have htargets : e.value? = none → targetList? (ts ++ t :: us') = none := by
        intro hflag
        obtain ⟨u, rfl, hu⟩ := hreads.flag hflag
        exact targetList?_eq_none_of_makes hu hcomma hflag h hmakes
      obtain ⟨others, rfl, line', n', ho⟩ :=
        (hreads.begins ⟨t, us', rfl, .inl hcomma⟩ htargets).bodyItems hended h
      rw [bodyItems_separator (ended_of_listFrom hothers 0).ne_nil (.inl hcomma)] at ho
      rw [List.cons_append, hreads.filter_append] at hmakes
      cases hmakes with
      | cons _ hmakes =>
        refine List.isChain_cons_cons.2 ⟨fun hflag => ?_, ih fits hothers ho hmakes⟩
        by_contra hvalue
        -- The name of the assignment would be the last of the targets.
        obtain ⟨u, rfl, hu⟩ := hreads.flag hflag
        obtain ⟨ts', _, _, hreads', hcuts'⟩ :=
          exists_readsAs (fits e' List.mem_cons_self) (front ++ (e.text ++ [',']))
        obtain ⟨u', sign, rest, rfl, hu', hsign⟩ := hreads'.assign hvalue
        obtain ⟨after, hopens, hinside⟩ := exists_inside_eq (.inl ⟨rfl, rfl⟩) e' es
        rw [hinside] at hothers
        obtain ⟨ws, -, rfl⟩ := hcuts'.exists_behind hopens hothers
        have hnone := htargets hflag
        simp [targetList?, hu, hcomma, hu', hsign] at hnone

/-! ## 5. The map literal -/

/-- A brace is one token. -/
theorem cuts_brace : ∃ t : Token, t.kind = .lbrace ∧ Cuts Anything .start ['{'] [t] := by
  obtain ⟨t, ht, -, hcuts⟩ := @cuts_mark .start .lbrace rfl
  exact ⟨t, ht, hcuts⟩

/-- A row of entries is read as a map, if no block is among them. -/
theorem parseExpression_of_row (row : Row separator (Position.behind ['{']) es ns us last)
    (hblock : ns.any isBlock = false) (file : String) :
    parseExpression (literal separator es) file = .ok (.map ns) := by
  obtain ⟨t, ht, hbrace⟩ := cuts_brace
  have hlist : Token.list (literal separator es).toList = .ok (t :: us) := by
    have hcut := hbrace.cut _ (anything (inside separator es))
    rw [Position.start_advance, row.list] at hcut
    rw [literal, String.toList_ofList]
    exact hcut
  obtain ⟨line, hexpression⟩ := row.reads.expression ht row.eof
    (k := budget (t :: us)) (by simp only [budget, List.length_cons]; omega) 0
  have hentries : ofEntries ns = .map ns := by simp [ofEntries, hblock]
  rw [hentries] at hexpression
  have hend : (Cursor.mk line [last]).skipComments = ⟨line, [last]⟩ :=
    skipComments_of_not (by simp [row.eof])
  refine readText_ok_iff.2 ⟨_, ⟨line, [last]⟩, hlist, (gives_loneExpression _ _ _ _).2
    ⟨_, hexpression, ?_, hend.symm⟩⟩
  rw [hend]
  exact row.eof

/-- **Semicolons part the entries of a map literal, and commas do so** if and only if no flag stands
in front of an assignment: then both literals are one expression, and it has one value in every
scope. -/
theorem parseExpression_literal {es : List Entry} {file : String}
    (fits : ∀ e ∈ es, e.Fits file) :
    ∃ ns, parseExpression (literal ';' es) file = .ok (.map ns) ∧
      List.Forall₂ (Makes file) es (ns.filter fun n => !n.isComment) ∧
      (parseExpression (literal ',' es) file = .ok (.map ns) ↔ FlagsLast es) ∧
      (FlagsLast es → ∀ (engine : Engine) (s : State),
        engine.evalExpression (literal ',' es) s = engine.evalExpression (literal ';' es) s) := by
  obtain ⟨ns, hmakes, hblock, hrow⟩ := exists_row fits ['{']
  obtain ⟨us, last, row⟩ := hrow ';' (.inl rfl)
  have hcommas : FlagsLast es → ∀ file, parseExpression (literal ',' es) file = .ok (.map ns) := by
    intro hlast file
    obtain ⟨us', last', row'⟩ := hrow ',' (.inr ⟨rfl, hlast⟩)
    exact parseExpression_of_row row' hblock file
  refine ⟨ns, parseExpression_of_row row hblock file, hmakes, ⟨fun h => ?_, fun hlast =>
    hcommas hlast file⟩, fun hlast engine s => ?_⟩
  · obtain ⟨ts, d, hts, hgives⟩ := readText_ok_iff.1 h
    obtain ⟨e, hexpression, -⟩ := (gives_loneExpression _ _ _ _).1 hgives
    obtain ⟨t, ht, hbrace⟩ := cuts_brace
    rw [literal, String.toList_ofList] at hts
    obtain ⟨us', hus', rfl⟩ := hbrace.exists_behind (anything _) hts
    rw [Position.start_advance] at hus'
    obtain ⟨n, e, hitems⟩ := bodyItems_of_expression (c := ofTokens (t :: us')) ht hexpression
    rw [ofTokens, skip_cons (ended_of_listFrom hus' 0).ne_nil] at hitems
    exact flagsLast_of_reads fits hus' hitems hmakes
  · rw [Engine.evalExpression, Engine.evalExpression, parseExpression_of_row row hblock,
      hcommas hlast]

/-- A flag. -/
def sampleFlag : Entry :=
  ⟨" ", "a", " ", none⟩

/-- An assignment. -/
def sampleAssignment : Entry :=
  ⟨" ", "b", " ", some " 1 "⟩

/-- An assignment with a comment that nothing ends. -/
def sampleCommented : Entry :=
  ⟨" ", "b", " ", some " 1 #"⟩

theorem fits_sampleFlag (file : String) : sampleFlag.Fits file where
  indent := by simp [sampleFlag, isGap]
  key := ((isPlainName_iff "a").1 (by decide)).1
  gap := by simp [sampleFlag, isGap]
  value := nofun

/-- The expression of the sample, read alone. -/
theorem parseExpression_sampleAssignment (file : String) :
    parseExpression " 1 " file = .ok (.literal (.int 1)) := by
  have hlist : Token.list " 1 ".toList =
      .ok [⟨.number, "1", ⟨1, 2⟩, none, none⟩, .endOfInput ⟨1, 4⟩] := by
    refine Token.listFrom_step rfl rfl rfl ?_
    exact (Token.listFrom_gap rfl _ _).trans (Token.listFrom_nil _)
  exact readText_ok_iff.2 ⟨_, ⟨1, [.endOfInput ⟨1, 4⟩]⟩, hlist, rfl⟩

/-- The sample has an expression that can be read alone, with nothing in it that would swallow a
separator. -/
theorem fits_sampleAssignment (file : String) : sampleAssignment.Fits file where
  indent := by simp [sampleAssignment, isGap]
  key := ((isPlainName_iff "b").1 (by decide)).1
  gap := by simp [sampleAssignment, isGap]
  value := by
    rintro v ⟨⟩
    refine ⟨⟨_, parseExpression_sampleAssignment file⟩,
      [⟨.number, "1", ⟨1, 2⟩, none, none⟩], ⟨.semicolon, ";", ⟨1, 4⟩, none, none⟩,
      .endOfInput ⟨1, 5⟩, ?_, rfl⟩
    refine Token.listFrom_step rfl rfl rfl ?_
    refine Token.listFrom_step rfl rfl rfl ?_
    exact Token.listFrom_nil _

/-- A flag may stand behind an assignment. -/
theorem parseExpression_literal_sample :
    ((∀ e ∈ [sampleAssignment, sampleFlag], e.Fits "d") ∧
      FlagsLast [sampleAssignment, sampleFlag]) ∧
    ∃ ns, parseExpression (literal ';' [sampleAssignment, sampleFlag]) "d" = .ok (.map ns) ∧
      parseExpression (literal ',' [sampleAssignment, sampleFlag]) "d" = .ok (.map ns) := by
  have fits : ∀ e ∈ [sampleAssignment, sampleFlag], e.Fits "d" := by
    intro e he
    rcases List.mem_pair.1 he with rfl | rfl
    · exact fits_sampleAssignment "d"
    · exact fits_sampleFlag "d"
  have hlast : FlagsLast [sampleAssignment, sampleFlag] := by
    simp [FlagsLast, sampleAssignment]
  obtain ⟨ns, hsemicolons, -, hcommas, -⟩ := parseExpression_literal fits
  exact ⟨⟨fits, hlast⟩, ns, hsemicolons, hcommas.2 hlast⟩

/-- With a semicolon a flag in front of an assignment is a flag. -/
theorem evalExpression_semicolon (engine : Engine) (s : State) :
    engine.evalExpression (literal ';' [sampleFlag, sampleAssignment]) s =
      (.ok (.map [("a", .bool true), ("b", .int 1)]), s) := by
  have hlist : Token.list (literal ';' [sampleFlag, sampleAssignment]).toList =
      .ok [⟨.lbrace, "\x7b", ⟨1, 1⟩, none, none⟩, ⟨.ident, "a", ⟨1, 3⟩, none, none⟩,
        ⟨.semicolon, ";", ⟨1, 5⟩, none, none⟩, ⟨.ident, "b", ⟨1, 7⟩, none, none⟩,
        ⟨.assign, "=", ⟨1, 9⟩, none, none⟩, ⟨.number, "1", ⟨1, 11⟩, none, none⟩,
        ⟨.rbrace, "\x7d", ⟨1, 13⟩, none, none⟩, .endOfInput ⟨1, 14⟩] := by
    rw [literal, String.toList_ofList]
    repeat refine Token.listFrom_step rfl rfl rfl ?_
    exact Token.listFrom_nil _
  have hparse : parseExpression (literal ';' [sampleFlag, sampleAssignment]) "<expr>" =
      .ok (.map [.assign ⟨"a", ⟨1, 3⟩⟩ (.literal (.bool true)) .flag,
        .assign ⟨"b", ⟨1, 7⟩⟩ (.literal (.int 1)) .equals]) :=
    readText_ok_iff.2 ⟨_, ⟨1, [.endOfInput ⟨1, 14⟩]⟩, hlist, rfl⟩
  rw [Engine.evalExpression, hparse]
  rfl

/-- With a comma it is the first of two targets, and the number is taken apart for them. -/
theorem evalExpression_comma (engine : Engine) (s : State) :
    engine.evalExpression (literal ',' [sampleFlag, sampleAssignment]) s =
      (.ok (.map [("a", .int 1)]), s) := by
  have hlist : Token.list (literal ',' [sampleFlag, sampleAssignment]).toList =
      .ok [⟨.lbrace, "\x7b", ⟨1, 1⟩, none, none⟩, ⟨.ident, "a", ⟨1, 3⟩, none, none⟩,
        ⟨.comma, ",", ⟨1, 5⟩, none, none⟩, ⟨.ident, "b", ⟨1, 7⟩, none, none⟩,
        ⟨.assign, "=", ⟨1, 9⟩, none, none⟩, ⟨.number, "1", ⟨1, 11⟩, none, none⟩,
        ⟨.rbrace, "\x7d", ⟨1, 13⟩, none, none⟩, .endOfInput ⟨1, 14⟩] := by
    rw [literal, String.toList_ofList]
    repeat refine Token.listFrom_step rfl rfl rfl ?_
    exact Token.listFrom_nil _
  have hparse : parseExpression (literal ',' [sampleFlag, sampleAssignment]) "<expr>" =
      .ok (.map [.destructure [⟨"a", ⟨1, 3⟩⟩, ⟨"b", ⟨1, 7⟩⟩] (.literal (.int 1))]) :=
    readText_ok_iff.2 ⟨_, ⟨1, [.endOfInput ⟨1, 14⟩]⟩, hlist, rfl⟩
  rw [Engine.evalExpression, hparse]
  rfl

/-- A comment that nothing ends takes the other entries and the brace in. -/
theorem parseExpression_sampleCommented (node : Node) :
    parseExpression (literal ';' [sampleCommented, sampleFlag]) "<expr>" ≠ .ok node := by
  have hlist : Token.list (literal ';' [sampleCommented, sampleFlag]).toList =
      .ok [⟨.lbrace, "\x7b", ⟨1, 1⟩, none, none⟩, ⟨.ident, "b", ⟨1, 3⟩, none, none⟩,
        ⟨.assign, "=", ⟨1, 5⟩, none, none⟩, ⟨.number, "1", ⟨1, 7⟩, none, none⟩,
        ⟨.comment, "#; a \x7d", ⟨1, 9⟩, none, none⟩, .endOfInput ⟨1, 15⟩] := by
    rw [literal, String.toList_ofList]
    repeat refine Token.listFrom_step rfl rfl rfl ?_
    exact Token.listFrom_nil _
  intro h
  obtain ⟨ts, d, hts, hgives⟩ := readText_ok_iff.1 h
  obtain rfl := Except.ok.inj (hlist.symm.trans hts)
  cases hgives

/-- **Separators matter.** A comma behind a flag in front of an assignment is no semicolon. And an
expression that can be read alone makes no entry if it ends with a comment that nothing ends. -/
theorem separators_matter :
    let engine : Engine := ⟨.default, [], fun _ _ => .error "no commands"⟩
    let s : State := ⟨.root [], ⟨⟨⟨[], []⟩, "/", [], []⟩, .fresh, [], []⟩⟩
    ((∀ e ∈ [sampleFlag, sampleAssignment], e.Fits "<expr>") ∧
      (engine.evalExpression (literal ';' [sampleFlag, sampleAssignment]) s).1 =
        .ok (.map [("a", .bool true), ("b", .int 1)]) ∧
      (engine.evalExpression (literal ',' [sampleFlag, sampleAssignment]) s).1 =
        .ok (.map [("a", .int 1)])) ∧
    sampleCommented.value? = some " 1 #" ∧
      parseExpression " 1 #" "<expr>" = .ok (.literal (.int 1)) ∧
      ∀ node, parseExpression (literal ';' [sampleCommented, sampleFlag]) "<expr>" ≠ .ok node := by
  intro engine s
  have fits : ∀ e ∈ [sampleFlag, sampleAssignment], e.Fits "<expr>" := by
    intro e he
    rcases List.mem_pair.1 he with rfl | rfl
    · exact fits_sampleFlag _
    · exact fits_sampleAssignment _
  have hlist : Token.list " 1 #".toList =
      .ok [⟨.number, "1", ⟨1, 2⟩, none, none⟩, ⟨.comment, "#", ⟨1, 4⟩, none, none⟩,
        .endOfInput ⟨1, 5⟩] := by
    repeat refine Token.listFrom_step rfl rfl rfl ?_
    exact Token.listFrom_nil _
  have halone : parseExpression " 1 #" "<expr>" = .ok (.literal (.int 1)) :=
    readText_ok_iff.2 ⟨_, ⟨1, [.endOfInput ⟨1, 5⟩]⟩, hlist, rfl⟩
  refine ⟨⟨fits, ?_, ?_⟩, rfl, halone, parseExpression_sampleCommented⟩
  · rw [evalExpression_semicolon]
  · rw [evalExpression_comma]

end Entry

end BlockConfig
