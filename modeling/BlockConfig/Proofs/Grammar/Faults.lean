import BlockConfig.Proofs.Grammar.Ending
import BlockConfig.Proofs.Grammar.Search

/-!
Which token a fault is found at.

A rule that stops with a fault stops because a search that it came to refuses a token of the list
(`Rule.Blames`). The token is the one that the fault is about (`SyntaxFault.IsAbout`): the token that
stands where another one was expected, the name that is unknown, the sign of the directive in which
something is missing, or the end of input where a brace has not been closed.

The rules are treated at once, by induction on their budget (`Accusing`). Each step of a rule either finds
fault itself or hands on the fault of the search it begins, so the proof for a rule names these searches
one after another. Apart from that only one thing goes through the induction, that the tokens ahead stay
an end of the list (`Cursor.Within`), which is what `Forward` says of every rule. Two faults are found at
a token that has been passed long ago, the sign of an `@exec` and the equals sign of several targets. The
first one is handed on by the rules for arguments, so these carry the assumption that it is such a sign.
-/

set_option autoImplicit false

namespace BlockConfig

open Cursor

/-- The token that a fault is about, in a list of tokens. -/
def SyntaxFault.IsAbout (ts : List Token) : SyntaxFault → Token → Prop
  | expected kind _ found, t => t = found ∧ t.kind ≠ kind
  | expectedName _ found, t => t = found ∧ t.isName = false
  | expectedExpression found, t | unexpected found, t | unexpectedInPipeline found, t => t = found
  | unexpectedAfterExpression found, t => t = found ∧ t.kind ≠ .eof
  | unclosed _, t => t.kind = .eof
  | strayElse word, t => (t.kind = .elseIfWord ∨ t.kind = .elseWord) ∧ t.literal = word
  | blockOrAssignment found, t => t = found ∧ t.kind ≠ .ident
  | targetCount _ _, t => t.kind = .assign
  | invalidNumber literal, t => t.kind = .number ∧ t.literal = literal
  | unknownDirective name, t =>
    t.kind = .ident ∧ t.literal = name ∧ ∃ sign, [sign, t] <:+: ts ∧ sign.kind = .atSign
  | unknownExecArgument name, t =>
    t.kind = .ident ∧ t.literal = name ∧ ∃ sign, [t, sign] <:+: ts ∧ sign.kind = .assign
  | missingCommand, t =>
    t.kind = .atSign ∧ ∃ name, [t, name] <:+: ts ∧ name.kind = .ident ∧ name.literal = "exec"
  | pipelineStep, t => t.isName = true
  | exhausted, _ => False

/-! ## 1. Cursors in a list of tokens -/

namespace Cursor

/-- The tokens ahead are an end of a list, and they end with the end of input. -/
structure Within (ts : List Token) (c : Cursor) : Prop where
  ended : c.Ended
  suffix : c.rest <:+ ts

variable {ts : List Token} {c d : Cursor}

/-- A look ahead always sees one of the tokens, as it sees the last one when there are no others. -/
theorem Within.peekAt_mem (h : c.Within ts) (n : Nat) : c.peekAt n ∈ ts := by
  have hall : c.Holds (· ∈ c.rest) := ⟨h.ended.1, fun _ ht => ht⟩
  exact h.suffix.subset (hall.peekAt n)

/-- Passing a token leads to no other tokens. -/
theorem Within.skip (h : c.Within ts) : c.skip.Within ts :=
  ⟨h.ended.skip, c.suffix_skip.trans h.suffix⟩

theorem Within.skipComments (h : c.Within ts) : c.skipComments.Within ts :=
  ⟨h.ended.skipComments, c.suffix_skipComments.trans h.suffix⟩

theorem Within.skipSeparators (h : c.Within ts) : c.skipSeparators.Within ts :=
  ⟨h.ended.skipSeparators, c.suffix_skipSeparators.trans h.suffix⟩

/-- Nor does anything that has been read. -/
theorem Within.reads {p : Kind → Prop} (h : c.Within ts) (hd : c.Reads p d) : d.Within ts :=
  ⟨hd.ended, hd.suffix.trans h.suffix⟩

/-- The next two tokens stand beside each other in the list. -/
theorem Within.pair (h : c.Within ts) (hk : (c.peekAt 0).kind ≠ .eof) :
    [c.peekAt 0, c.skip.peekAt 0] <:+: ts := by
  obtain ⟨line, rest⟩ := c
  match rest with
  | [] => exact absurd rfl h.ended.ne_nil
  | [t] =>
    obtain ⟨⟨u, hu, heof⟩, -⟩ := h.ended
    obtain rfl : t = u := by simpa using hu
    exact absurd heof hk
  | t :: u :: rest =>
    have hpre : [t, u] <+: t :: u :: rest := ⟨rest, rfl⟩
    exact hpre.isInfix.trans h.suffix.isInfix

end Cursor

namespace Rule

variable {α β : Type}

/-! ## 2. Steps -/

/-- The token `t` is to blame for a fault: a search that `s` comes to refuses it. -/
structure Blames (ts : List Token) (s : Search) (m : Misplaced SyntaxFault) (t : Token) : Prop where
  mem : t ∈ ts
  position : m.pos = t.pos
  refused : ∃ s', Relation.ReflTransGen Search.LooksFor s s' ∧ s'.Refuses t m.fault
  about : m.fault.IsAbout ts t

/-- What a part of a rule finds fault with at a cursor is a token that the search `s` comes to, unless the
budget is used up. -/
def Accuses (ts : List Token) (s : Search) (r : Rule α) (c : Cursor) : Prop :=
  ∀ m, r c = .error m → m.fault ≠ .exhausted → ∃ t, Blames ts s m t

section Steps

variable {ts : List Token} {s s' : Search} {r r' : Rule α} {f : α → Rule β} {c : Cursor}

/-- A rule that succeeds accuses nothing, whatever it was looking for. -/
theorem accuses_of_gives {a : α} {d : Cursor} (h : r.Gives c a d) : Accuses ts s r c := by
  intro m hm
  cases h.symm.trans hm

/-- In particular one that only gives a value. -/
theorem accuses_pure (a : α) : Accuses ts s (pure a) c :=
  accuses_of_gives ((gives_pure a a c c).2 ⟨rfl, rfl⟩)

/-- A fault is accused of rightly when the search refuses just this token, and the fault is about it. -/
theorem accuses_fail {t : Token} {fault : SyntaxFault} (ht : t ∈ ts) (hs : s.Refuses t fault)
    (h : fault.IsAbout ts t) : Accuses ts s (fail t fault : Rule α) c := by
  rintro m ⟨⟩ -
  exact ⟨t, ht, rfl, ⟨s, .refl, hs⟩, h⟩

/-- Running out of budget is not held against any token. -/
theorem accuses_exhausted : Accuses ts s (exhausted : Rule α) c := by
  rintro m ⟨⟩ hm
  exact absurd rfl hm

/-- What is found by a search is found by the one that comes to it. -/
theorem Accuses.of (h : Accuses ts s' r c) (hs : s.LooksFor s') : Accuses ts s r c := by
  intro m hm hne
  obtain ⟨t, ht⟩ := h m hm hne
  obtain ⟨s'', hchain, hrefuses⟩ := ht.refused
  exact ⟨t, ht.mem, ht.position, ⟨s'', .head hs hchain, hrefuses⟩, ht.about⟩

/-- The fault of a sequence is that of its first rule, or that of the second at the place where the first
has ended. -/
theorem Accuses.bind (h : Accuses ts s r c) (hf : ∀ a d, r.Gives c a d → Accuses ts s (f a) d) :
    Accuses ts s (r >>= f) c := by
  intro m hm
  have happly : (r >>= f) c = (r c).bind fun p => f p.1 p.2 := rfl
  cases hr : r c with
  | error m' =>
    rw [happly, hr] at hm
    obtain rfl := Except.error.inj hm
    exact h m' hr
  | ok p =>
    rw [happly, hr] at hm
    exact hf p.1 p.2 hr m hm

/-- A rule that makes something of what another one reads. -/
theorem Accuses.returning {g : α → β} (h : Accuses ts s r c) :
    Accuses ts s (r >>= fun a => pure (g a)) c :=
  h.bind fun _ _ _ => accuses_pure _

/-- Behind a step that cannot fail. -/
theorem accuses_behind {a : α} {d : Cursor} (h : r.Gives c a d) (hf : Accuses ts s (f a) d) :
    Accuses ts s (r >>= f) c := by
  refine (accuses_of_gives h).bind fun a' d' h' => ?_
  cases h.symm.trans h'
  exact hf

/-- The rule that is followed is the one that accuses. -/
theorem accuses_ite {p : Prop} [Decidable p] (hr : p → Accuses ts s r c)
    (hs : ¬p → Accuses ts s r' c) : Accuses ts s (if p then r else r') c := by
  by_cases hp : p
  · rw [if_pos hp]
    exact hr hp
  · rw [if_neg hp]
    exact hs hp

/-- Behind a rule that reads something. -/
theorem Accuses.bind_consumes {p : Kind → Prop} (h : Accuses ts s r c) (hr : Consumes p r)
    (hc : c.Within ts) (hf : ∀ a d, r.Gives c a d → d.Within ts → Accuses ts s (f a) d) :
    Accuses ts s (r >>= f) c :=
  h.bind fun a d hd => hf a d hd (hc.reads (hr hc.ended hd))

end Steps

section Tokens

variable {ts : List Token} {s : Search} {r r' : Rule α} {c : Cursor}

/-- A look ahead never fails, and what follows is looked for at the same place. -/
theorem accuses_peekAt {f : Token → Rule β} (n : Nat) (h : Accuses ts s (f (c.peekAt n)) c) :
    Accuses ts s (peekAt n >>= f) c :=
  accuses_behind rfl h

theorem accuses_peek {f : Token → Rule β} (h : Accuses ts s (f (c.peekAt 0)) c) :
    Accuses ts s (peek >>= f) c :=
  accuses_behind rfl h

/-- Passing a token never fails either, but what follows is looked for behind it. -/
theorem accuses_advance {f : Token → Rule β} (h : Accuses ts s (f (c.peekAt 0)) c.skip) :
    Accuses ts s (advance >>= f) c :=
  accuses_behind rfl h

theorem accuses_skipComments {f : Unit → Rule β} (h : Accuses ts s (f ()) c.skipComments) :
    Accuses ts s (skipComments >>= f) c :=
  accuses_behind rfl h

theorem accuses_skipSeparators {f : Unit → Rule β} (h : Accuses ts s (f ()) c.skipSeparators) :
    Accuses ts s (skipSeparators >>= f) c :=
  accuses_behind rfl h

theorem accuses_get {f : Cursor → Rule β} (h : Accuses ts s (f c) c) :
    Accuses ts s (get >>= f) c :=
  accuses_behind rfl h

/-- An optional token. Whether it was there decides where what follows is looked for. -/
theorem accuses_eat (kind : Kind) (hyes : (c.peekAt 0).kind = kind → Accuses ts s r c.skip)
    (hno : (c.peekAt 0).kind ≠ kind → Accuses ts s r' c) :
    Accuses ts s (eat kind >>= fun b => if b = true then r else r') c := by
  by_cases hk : (c.peekAt 0).kind = kind
  · exact accuses_behind ((gives_eat kind c true _).2 (.inl ⟨hk, rfl, rfl⟩)) (hyes hk)
  · exact accuses_behind ((gives_eat kind c false _).2 (.inr ⟨hk, rfl, rfl⟩)) (hno hk)

/-- A search for a token, and what comes behind it. -/
theorem accuses_expect {f : Token → Rule β} {n : Nat} {kind : Kind} {context : String}
    (hs : s.LooksFor ⟨n, .token kind context, c⟩) (hc : c.Within ts)
    (h : (c.peekAt 0).kind = kind → Accuses ts s (f (c.peekAt 0)) c.skip) :
    Accuses ts s (expect kind context >>= f) c := by
  have hself : Accuses ts ⟨n, .token kind context, c⟩ (expect kind context) c :=
    accuses_peek (accuses_ite (fun _ => accuses_of_gives rfl)
      fun hk => accuses_fail (hc.peekAt_mem 0) (.token hk) ⟨rfl, hk⟩)
  refine (hself.of hs).bind fun t d hd => ?_
  obtain ⟨hk, rfl, rfl⟩ := (gives_expect kind context c t d).1 hd
  exact h hk

/-- A search for a name, and what comes behind it. -/
theorem accuses_expectName {f : Token → Rule β} {n : Nat} {context : String}
    (hs : s.LooksFor ⟨n, .name context, c⟩) (hc : c.Within ts)
    (h : (c.peekAt 0).isName = true → Accuses ts s (f (c.peekAt 0)) c.skip) :
    Accuses ts s (expectName context >>= f) c := by
  have hself : Accuses ts ⟨n, .name context, c⟩ (expectName context) c := by
    refine accuses_peek (accuses_ite (fun _ => accuses_of_gives rfl) fun hk => ?_)
    have hname : (c.peekAt 0).isName = false := Bool.eq_false_iff.2 hk
    exact accuses_fail (hc.peekAt_mem 0) (.name hname) ⟨rfl, hname⟩
  refine (hself.of hs).bind fun t d hd => ?_
  obtain ⟨hk, rfl, rfl⟩ := (gives_expectName context c t d).1 hd
  exact h hk

end Tokens

/-! ## 3. All rules at once -/

/-- The rule `r`, which looks for the construct `x`, finds fault with tokens of the list only, wherever in
the list it begins. -/
def FindsFault (ts : List Token) (n : Nat) (x : Construct) (r : Rule α) : Prop :=
  ∀ {c : Cursor}, c.Within ts → Accuses ts ⟨n, x, c⟩ r c

/-- The sign in front of an `@exec`. -/
structure OpensExec (ts : List Token) (sign : Token) : Prop where
  mem : sign ∈ ts
  about : SyntaxFault.missingCommand.IsAbout ts sign

/-- What all rules with budget `n` find fault with. -/
structure Accusing (ts : List Token) (n : Nat) : Prop where
  expression : FindsFault ts n .expression (expression n)
  binary : ∀ {least : Nat}, FindsFault ts n (.binary least) (binary n least)
  climb : ∀ {least : Nat} {left : Node}, FindsFault ts n (.climb least left) (climb n least left)
  unary : FindsFault ts n .unary (unary n)
  members : ∀ {left : Node}, FindsFault ts n (.members left) (members n left)
  primary : FindsFault ts n .primary (primary n)
  items : ∀ {close : Kind} {context : String},
    FindsFault ts n (.items close context) (items n close context)
  body : ∀ {context : String}, FindsFault ts n (.body context) (body n context)
  bodyItems : ∀ {context : String}, FindsFault ts n (.bodyItems context) (bodyItems n context)
  statement : FindsFault ts n .statement (statement n)
  arrow : ∀ {relation : Option Relation}, FindsFault ts n (.arrow relation) (arrow n relation)
  blockOrAssignment : FindsFault ts n .blockOrAssignment (blockOrAssignment n)
  moreValues : ∀ {limit : Nat}, FindsFault ts n (.moreValues limit) (moreValues n limit)
  control : FindsFault ts n .control (control n)
  elseChain : FindsFault ts n .elseChain (elseChain n)
  directive : FindsFault ts n .directive (directive n)
  execArguments : ∀ {sign : Token} {cmd args dir : Option Node}, OpensExec ts sign →
    FindsFault ts n (.execArguments sign cmd args dir) (execArguments n sign cmd args dir)
  moreExecArguments : ∀ {sign : Token} {cmd args dir : Option Node}, OpensExec ts sign →
    FindsFault ts n (.moreExecArguments sign cmd args dir)
      (moreExecArguments n sign cmd args dir)
  pipelineItems : FindsFault ts n .pipelineItems (pipelineItems n)

/-- Without a budget nothing is found. -/
theorem accusing_zero (ts : List Token) : Accusing ts 0 := by
  constructor <;> repeat intro
  all_goals exact accuses_exhausted _ ‹_› ‹_›

/-! ### Expressions -/

section Expressions

variable {ts : List Token} {n : Nat} (A : Accusing ts n)
include A

/-- A choice. It looks for a condition and, after the mark, for two more expressions; what stands in the
place of the colon is the only token that it refuses itself. -/
theorem finds_expression : FindsFault ts (n + 1) .expression (expression (n + 1)) := by
  intro c hc
  simp only [expression]
  have hcondition := (A.binary hc).of (.inside .condition)
  refine hcondition.bind_consumes (forward n).binary hc fun condition e hcond he => ?_
  refine accuses_eat .question (fun hq => ?_) fun _ => accuses_pure _
  have hyes := (A.expression he.skip).of (.inside (.yes hcond hq))
  refine hyes.bind_consumes (forward n).expression he.skip fun yes e₁ hyes he₁ => ?_
  refine accuses_expect (.inside (.colon hcond hq hyes)) he₁ fun hcolon => ?_
  exact ((A.expression he₁.skip).of (.inside (.no hcond hq hyes hcolon))).returning

/-- Operands with operators between them: all faults are those of the operands. -/
theorem finds_binary {least : Nat} :
    FindsFault ts (n + 1) (.binary least) (binary (n + 1) least) := by
  intro c hc
  simp only [binary]
  have hunary : Accuses ts ⟨n + 1, .binary least, c⟩ (unary n) c :=
    (A.unary hc).of (.inside .left)
  exact hunary.bind_consumes (forward n).unary hc fun left e hleft he =>
    (A.climb he).of (.inside (.operators hleft))

/-- The loop over operators. A token that is no operator ends it without a fault. -/
theorem finds_climb {least : Nat} {left : Node} :
    FindsFault ts (n + 1) (.climb least left) (climb (n + 1) least left) := by
  intro c hc
  simp only [climb]
  refine accuses_behind (a := c.operator?) rfl ?_
  cases ho : c.operator? with
  | none => exact accuses_pure _
  | some op =>
    refine accuses_ite (fun _ => accuses_pure _) fun hs => accuses_advance ?_
    have hle := Nat.le_of_not_lt hs
    have hbinary : Accuses ts ⟨n + 1, .climb least left, c⟩ (binary n (op.strength + 1)) c.skip :=
      (A.binary hc.skip).of (.inside (.right ho hle))
    refine hbinary.bind_consumes (forward n).binary hc.skip fun right e hright he => ?_
    exact (A.climb he).of (.inside (.moreOperators ho hle hright))

/-- A prefix operator has to be followed by an operand, and nothing else goes wrong here. -/
theorem finds_unary : FindsFault ts (n + 1) .unary (unary (n + 1)) := by
  intro c hc
  simp only [unary]
  refine accuses_peek ?_
  cases ho : UnaryOp.ofKind? (c.peekAt 0).kind with
  | some op =>
    exact accuses_advance ((A.unary hc.skip).of (.inside (.operand ho))).returning
  | none =>
    have hprimary := (A.primary hc).of (.inside (.leaf ho))
    exact hprimary.bind_consumes (forward n).primary hc fun left e hleft he =>
      (A.members he).of (.inside (.membersOf ho hleft))

/-- Behind a dot a name is expected. This is the fault of the token that stands there instead. -/
theorem finds_members {left : Node} :
    FindsFault ts (n + 1) (.members left) (members (n + 1) left) := by
  intro c hc
  simp only [members]
  refine accuses_eat .dot (fun hdot => ?_) fun _ => accuses_pure _
  exact accuses_expectName (.inside (.member hdot)) hc.skip fun hname =>
    (A.members hc.skip.skip).of (.inside (.moreMembers hdot hname))

/-- An operand is where most faults of expressions arise: the token that begins none is refused here, and
each kind of bracket looks for what it holds and for what closes it. -/
theorem finds_primary : FindsFault ts (n + 1) .primary (primary (n + 1)) := by
  intro c hc
  simp only [primary]
  refine accuses_peek ?_
  have hmem := hc.peekAt_mem 0
  cases hk : (c.peekAt 0).kind
  case number =>
    refine accuses_advance ?_
    cases hv : numberLiteral? (c.peekAt 0).literal with
    | some v => exact accuses_pure _
    | none => exact accuses_fail hmem (.number hk hv) ⟨hk, rfl⟩
  case str | heredoc | bool | envRef => exact accuses_advance (accuses_pure _)
  case ident =>
    refine accuses_advance (accuses_ite (fun _ => accuses_pure _) fun hn => accuses_peek ?_)
    refine accuses_ite (fun hp => ?_) fun _ => accuses_pure _
    refine accuses_behind ((gives_expect _ _ _ _ _).2 ⟨hp.1, rfl, rfl⟩) ?_
    exact ((A.items hc.skip.skip).of (.inside (.arguments hk hn hp.1 hp.2))).returning
  case lparen =>
    refine accuses_advance ?_
    have hinner := (A.expression hc.skip).of (.inside (.inner hk))
    refine hinner.bind_consumes (forward n).expression hc.skip fun inner e hinner he => ?_
    exact accuses_expect (.inside (.closeGroup hk hinner)) he fun _ => accuses_pure _
  case lbracket =>
    refine accuses_behind ((gives_expect _ _ _ _ _).2 ⟨hk, rfl, rfl⟩) ?_
    exact ((A.items hc.skip).of (.inside (.elements hk))).returning
  case lbrace => exact ((A.body hc).of (.inside (.entries hk))).returning
  case atSign => exact (A.directive hc).of (.inside (.directiveValue hk))
  all_goals exact accuses_fail hmem (.operand (by rw [hk]; rfl)) rfl

/-- Items up to a closing token. What stands behind an item and is neither a comma nor that token is
refused. -/
theorem finds_items {close : Kind} {context : String} :
    FindsFault ts (n + 1) (.items close context) (items (n + 1) close context) := by
  intro c hc
  simp only [items]
  have hcs := hc.skipComments
  refine accuses_skipComments (accuses_eat close (fun _ => accuses_pure _) fun hno => ?_)
  have hitem : Accuses ts ⟨n + 1, .items close context, c⟩ (expression n) c.skipComments :=
    (A.expression hcs).of (.inside (.item hno))
  refine hitem.bind_consumes (forward n).expression hcs fun item e hitem he =>
    accuses_skipComments ?_
  have hes := he.skipComments
  refine accuses_eat .comma (fun hcomma => ?_) fun hcomma =>
    accuses_expect (.inside (.closeItems hno hitem hcomma)) hes fun _ => accuses_pure _
  exact ((A.items hes.skip).of (.inside (.moreItems hno hitem hcomma))).returning

end Expressions

/-! ### Statements -/

/-- The equals sign of several targets is one of the tokens ahead. -/
theorem sign_of_targetList? {ts rest : List Token} {targets : List Target} {sign : Token}
    (h : targetList? ts = some (targets, sign, rest)) : sign ∈ ts ∧ sign.kind = .assign := by
  fun_induction targetList? ts generalizing targets with
  | case1 t u rest' _ _ ih =>
    obtain ⟨⟨targets', sign', rest''⟩, ht, he⟩ := Option.map_eq_some_iff.1 h
    simp only [Prod.mk.injEq] at he
    obtain ⟨-, rfl, rfl⟩ := he
    exact ⟨List.mem_cons_of_mem _ (List.mem_cons_of_mem _ (ih ht).1), (ih ht).2⟩
  | case2 t u rest' _ _ hassign =>
    simp only [Option.some.injEq, Prod.mk.injEq] at h
    obtain ⟨-, rfl, -⟩ := h
    exact ⟨List.mem_cons_of_mem _ List.mem_cons_self, hassign⟩
  | case3 | case4 | case5 => simp at h

section Statements

variable {ts : List Token} {n : Nat} (A : Accusing ts n)
include A

/-- A body looks for its opening brace, then for its statements. -/
theorem finds_body {context : String} :
    FindsFault ts (n + 1) (.body context) (body (n + 1) context) := by
  intro c hc
  simp only [body]
  exact accuses_expect (.inside .brace) hc fun hbrace =>
    (A.bodyItems hc.skip).of (.inside (.inBraces hbrace))

/-- Statements up to a brace. The end of input is refused here, with the words of the body that was not
closed. -/
theorem finds_bodyItems {context : String} :
    FindsFault ts (n + 1) (.bodyItems context) (bodyItems (n + 1) context) := by
  intro c hc
  simp only [bodyItems]
  have hcs := hc.skipSeparators
  refine accuses_skipSeparators (accuses_eat .rbrace (fun _ => accuses_pure _) fun hno => ?_)
  refine accuses_peek (accuses_ite
    (fun hend => accuses_fail (hcs.peekAt_mem 0) (.unclosedBody hend) hend) fun hend => ?_)
  have hfirst : Accuses ts ⟨n + 1, .bodyItems context, c⟩ (statement n) c.skipSeparators :=
    (A.statement hcs).of (.inside (.firstOfBody hno hend))
  refine hfirst.bind_consumes (forward n).statement hcs fun first e hfirst he => ?_
  exact ((A.bodyItems he).of (.inside (.moreOfBody hno hend hfirst))).returning

/-- A name goes on as an arrow or as something else. -/
theorem accuses_named {c : Cursor} (hc : c.Within ts) (hname : (c.peekAt 0).isName = true) :
    Accuses ts ⟨n + 1, .statement, c⟩
      (do
        match arrowAhead? (← get) with
        | some relation => arrow n relation
        | none => blockOrAssignment n : Rule Node) c := by
  refine accuses_get ?_
  cases ha : arrowAhead? c with
  | some relation => exact (A.arrow hc).of (.inside (.arrowStatement hname ha))
  | none => exact (A.blockOrAssignment hc).of (.inside (.namedStatement hname ha))

/-- A statement. It is decided by its first tokens which construct is looked for, and a token that begins no
statement is refused. -/
theorem finds_statement : FindsFault ts (n + 1) .statement (statement (n + 1)) := by
  intro c hc
  simp only [statement]
  have hnamed := accuses_named A hc
  have hmem := hc.peekAt_mem 0
  have hother : (c.peekAt 0).kind.startsStatement = false → (c.peekAt 0).kind ≠ .elseIfWord →
      (c.peekAt 0).kind ≠ .elseWord → Accuses ts ⟨n + 1, .statement, c⟩
        (fail (c.peekAt 0) (.unexpected (c.peekAt 0)) : Rule Node) c :=
    fun hk hi he => accuses_fail hmem (.statement hk hi he) rfl
  refine accuses_peek ?_
  cases hk : (c.peekAt 0).kind
  case comment => exact accuses_advance (accuses_pure _)
  case atSign => exact (A.directive hc).of (.inside (.directiveStatement hk))
  case ifWord => exact ((A.control hc).of (.inside (.controlStatement hk))).returning
  case elseIfWord => exact accuses_fail hmem (.strayElse (.inl hk)) ⟨.inl hk, rfl⟩
  case elseWord => exact accuses_fail hmem (.strayElse (.inr hk)) ⟨.inr hk, rfl⟩
  case ident | str => exact hnamed (by simp [Token.isName, hk])
  all_goals exact hother (by rw [hk]; rfl) (by simp [hk]) (by simp [hk])

/-- An arrow looks for its two names and the sign between them, then perhaps for properties. -/
theorem finds_arrow {relation : Option Relation} :
    FindsFault ts (n + 1) (.arrow relation) (arrow (n + 1) relation) := by
  intro c hc
  -- Behind the relation, if there is one.
  have htail : ∀ {e : Cursor} (first : Token), e = (if relation.isSome then c.skip else c) →
      e.Within ts → Accuses ts ⟨n + 1, .arrow relation, c⟩
        (do let source ← expectName "as arrow source"
            let _ ← expect .arrow "in arrow"
            let target ← expectName "as arrow target"
            let properties ←
              if (← peek).kind = Kind.lbrace then body n "for arrow properties" else pure []
            return Node.arrow relation source.literal target.literal properties first.pos) e := by
    intro e first he hwithin
    refine accuses_expectName (.inside (.source he)) hwithin fun hs => ?_
    refine accuses_expect (.inside (.arrowSign he hs)) hwithin.skip fun ha => ?_
    refine accuses_expectName (.inside (.target he hs ha)) hwithin.skip.skip fun ht => ?_
    refine accuses_peek (accuses_ite (fun hb => ?_) fun _ => (accuses_pure _).returning)
    exact ((A.body hwithin.skip.skip.skip).of (.inside (.properties he hs ha ht hb))).returning
  simp only [arrow]
  refine accuses_peek ?_
  cases relation with
  | none => exact htail _ rfl hc
  | some r => exact accuses_advance (htail _ rfl hc.skip)

/-- What follows the equals sign of several targets. -/
theorem accuses_assignSeveral {c : Cursor} (hc : c.Within ts) {targets : List Target}
    {sign : Token} {rest : List Token} (hk : (c.peekAt 0).kind = .ident)
    (hn : (c.peekAt 1).kind = .comma) (ht : targetList? c.rest = some (targets, sign, rest)) :
    Accuses ts ⟨n + 1, .blockOrAssignment, c⟩
      (do
        set (Cursor.mk sign.pos.line rest)
        let first ← expression n
        let values := first :: (← moreValues n (targets.length - 1))
        if values.length = targets.length then
          return Node.assignEach (targets.zip values)
        else if values.length = 1 then
          return Node.destructure targets first
        else
          fail sign (.targetCount targets.length values.length) : Rule Node) c := by
  obtain ⟨hmem, hassign⟩ := sign_of_targetList? ht
  have hsign : Cursor.Within ts ⟨sign.pos.line, rest⟩ :=
    ⟨(targets_of_targetList? hc.ended ht hn).2.2, (suffix_of_targetList? ht).trans hc.suffix⟩
  refine accuses_behind (d := ⟨sign.pos.line, rest⟩) rfl ?_
  have hfirst := (A.expression hsign).of (.inside (.firstValue hk hn ht))
  refine hfirst.bind_consumes (forward n).expression hsign fun first e hfirst he => ?_
  refine ((A.moreValues he).of (.inside (.otherValues hk hn ht hfirst))).bind
    fun others d hothers => ?_
  refine accuses_ite (fun _ => accuses_pure _) fun hl => ?_
  exact accuses_ite (fun _ => accuses_pure _) fun h1 =>
    accuses_fail (hc.suffix.subset hmem) (.targetCount hk hn ht hfirst hothers hl h1) hassign

/-- A statement that begins with a name. It refuses a quoted name that nothing goes on from, and several
targets with the wrong number of values. The latter is said to be at the equals sign. -/
theorem finds_blockOrAssignment :
    FindsFault ts (n + 1) .blockOrAssignment (blockOrAssignment (n + 1)) := by
  intro c hc
  simp only [blockOrAssignment]
  refine accuses_peek (accuses_peekAt 1 (accuses_ite (fun hb => ?_) fun hb => ?_))
  · exact accuses_advance ((A.body hc.skip).of (.inside (.blockBody hb))).returning
  refine accuses_peekAt 2 (accuses_ite (fun hl => ?_) fun hl => ?_)
  · refine accuses_advance (accuses_advance ?_)
    exact ((A.body hc.skip.skip).of (.inside (.labelledBody hl.1 hl.2.1 hl.2.2))).returning
  refine accuses_ite (fun ha => ?_) fun ha => ?_
  · refine accuses_advance (accuses_advance ?_)
    exact ((A.expression hc.skip.skip).of (.inside (.value ha))).returning
  refine accuses_ite (fun hk => accuses_get ?_) fun hk =>
    accuses_fail (hc.peekAt_mem 0) (.blockOrAssignment hb hl ha hk) ⟨rfl, hk⟩
  cases ht : targetList? c.rest with
  | none => exact accuses_advance (accuses_pure _)
  | some p =>
    obtain ⟨targets, sign, rest⟩ := p
    have hcomma := comma_of_targetList? ht fun hs => ha (.inl hs)
    exact accuses_assignSeveral A hc hk hcomma ht

/-- The values of several targets. Each of them is an expression behind a comma. -/
theorem finds_moreValues {limit : Nat} :
    FindsFault ts (n + 1) (.moreValues limit) (moreValues (n + 1) limit) := by
  intro c hc
  cases limit with
  | zero =>
    simp only [moreValues]
    exact accuses_pure _
  | succ limit =>
    simp only [moreValues]
    refine accuses_eat .comma (fun hcomma => ?_) fun _ => accuses_pure _
    have hvalue : Accuses ts ⟨n + 1, .moreValues (limit + 1), c⟩ (expression n) c.skip :=
      (A.expression hc.skip).of (.inside (.nextValue hcomma))
    refine hvalue.bind_consumes (forward n).expression hc.skip fun value e hvalue he => ?_
    exact ((A.moreValues he).of (.inside (.valuesBehind hcomma hvalue))).returning

/-- A condition and the body that depends on it. -/
theorem finds_control : FindsFault ts (n + 1) .control (control (n + 1)) := by
  intro c hc
  simp only [control]
  refine accuses_advance ?_
  have hcondition := (A.expression hc.skip).of (.inside .branchCondition)
  refine hcondition.bind_consumes (forward n).expression hc.skip fun condition e hcond he => ?_
  have hbody := (A.body he).of (.inside (.branchBody hcond))
  refine hbody.bind_consumes (forward n).body he fun statements e₁ hbody he₁ => ?_
  exact ((A.elseChain he₁).of (.inside (.branchesBehind hcond hbody))).returning

/-- The links that follow. Which keyword is there decides what is looked for, and no token is refused. -/
theorem finds_elseChain : FindsFault ts (n + 1) .elseChain (elseChain (n + 1)) := by
  intro c hc
  simp only [elseChain]
  have hcs := hc.skipComments
  refine accuses_get (accuses_ite (fun ha => ?_) fun _ => accuses_pure _)
  refine accuses_skipComments (accuses_peek (accuses_ite (fun hk => ?_) fun hk => ?_))
  · exact (A.control hcs).of (.inside (.elseIf ha hk))
  refine accuses_peekAt 1 (accuses_ite (fun hi => accuses_advance ?_) fun hi => ?_)
  · exact (A.control hcs.skip).of (.inside (.elseThenIf ha hk hi))
  · exact accuses_advance ((A.body hcs.skip).of (.inside (.elseBody ha hk hi))).returning

end Statements

/-! ### Directives -/

section Directives

variable {ts : List Token} {n : Nat} (A : Accusing ts n)
include A

/-- A directive is known by the name behind its sign. Another name is refused there, and so is a token that
is no name. -/
theorem finds_directive : FindsFault ts (n + 1) .directive (directive (n + 1)) := by
  intro c hc
  simp only [directive]
  refine accuses_expect (.inside .sign) hc fun hsign => ?_
  refine accuses_expect (.inside (.directiveName hsign)) hc.skip fun hname => ?_
  have hpair := hc.pair (by simp [hsign])
  refine accuses_ite (fun hn => ?_) fun hinclude => accuses_ite (fun hexec => ?_) fun hexec =>
    accuses_ite (fun hn => ?_) fun hpipeline => accuses_fail (hc.skip.peekAt_mem 0)
      (.directive hsign hname hinclude hexec hpipeline) ?_
  · exact ((A.expression hc.skip.skip).of (.inside (.included hsign hname hn))).returning
  · have hopens : OpensExec ts (c.peekAt 0) := ⟨hc.peekAt_mem 0, hsign, _, hpair, hname, hexec⟩
    refine accuses_expect (.inside (.openExec hsign hname hexec)) hc.skip.skip fun hparen => ?_
    exact (A.execArguments hopens hc.skip.skip.skip).of
      (.inside (.execution hsign hname hexec hparen))
  · refine accuses_expect (.inside (.openPipeline hsign hname hn)) hc.skip.skip fun hbrace => ?_
    exact ((A.pipelineItems hc.skip.skip.skip).of
      (.inside (.pipeline hsign hname hn hbrace))).returning
  · exact ⟨hname, rfl, _, hpair, hsign⟩

omit A in
/-- A missing command is the fault of the sign with which the execution began, since no single token behind
it is to blame. -/
theorem accuses_execNode {s : Search} {sign : Token} (hsign : OpensExec ts sign)
    (cmd args dir : Option Node) (hs : cmd = none → s.Refuses sign .missingCommand) {c : Cursor} :
    Accuses ts s (execNode sign cmd args dir) c := by
  cases cmd with
  | some program => exact accuses_pure _
  | none => exact accuses_fail hsign.mem (hs rfl) hsign.about

/-- The arguments of an execution. A name that is none of theirs is refused where it stands; the missing
command is noticed at the closing bracket and blamed on the sign. -/
theorem finds_execArguments {sign : Token} {cmd args dir : Option Node}
    (hsign : OpensExec ts sign) :
    FindsFault ts (n + 1) (.execArguments sign cmd args dir)
      (execArguments (n + 1) sign cmd args dir) := by
  intro c hc
  simp only [execArguments]
  have hcs := hc.skipComments
  refine accuses_skipComments (accuses_eat .rparen (fun hparen => ?_) fun hparen => ?_)
  · refine accuses_execNode hsign _ _ _ ?_
    rintro rfl
    exact .noCommand hparen
  refine accuses_expect (.inside (.key hparen)) hcs fun hkey => ?_
  refine accuses_expect (.inside (.equals hkey)) hcs.skip fun hassign => ?_
  have hpair := hcs.pair (by simp [hkey])
  have hvalue : Accuses ts ⟨n + 1, .execArguments sign cmd args dir, c⟩ (expression n)
      c.skipComments.skip.skip :=
    (A.expression hcs.skip.skip).of (.inside (.argument hkey hassign))
  refine hvalue.bind_consumes (forward n).expression hcs.skip.skip fun value e hvalue he => ?_
  refine accuses_ite (fun hn => ?_) fun hcmd => accuses_ite (fun hn => ?_) fun hargs =>
    accuses_ite (fun hn => ?_) fun hdir => accuses_fail (hcs.peekAt_mem 0)
      (.argumentName hkey hassign hvalue hcmd hargs hdir) ⟨hkey, rfl, _, hpair, hassign⟩
  · exact (A.moreExecArguments hsign he).of (.inside (.behindCmd hkey hassign hvalue hn))
  · exact (A.moreExecArguments hsign he).of (.inside (.behindArgs hkey hassign hvalue hn))
  · exact (A.moreExecArguments hsign he).of (.inside (.behindDir hkey hassign hvalue hn))

/-- What follows an argument is a comma or the bracket, and any other token is refused. -/
theorem finds_moreExecArguments {sign : Token} {cmd args dir : Option Node}
    (hsign : OpensExec ts sign) :
    FindsFault ts (n + 1) (.moreExecArguments sign cmd args dir)
      (moreExecArguments (n + 1) sign cmd args dir) := by
  intro c hc
  simp only [moreExecArguments]
  have hcs := hc.skipComments
  refine accuses_skipComments (accuses_eat .comma (fun hcomma => ?_) fun hcomma => ?_)
  · exact (A.execArguments hsign hcs.skip).of (.inside (.nextArgument hcomma))
  refine accuses_expect (.inside (.closeExec hcomma)) hcs fun hparen => ?_
  refine accuses_execNode hsign _ _ _ ?_
  rintro rfl
  exact .noCommandBehind hparen

/-- A name in a pipeline begins an arrow or a step. -/
theorem accuses_pipelineName {c : Cursor} (hc : c.skipSeparators.Within ts)
    (hname : (c.skipSeparators.peekAt 0).isName = true) :
    Accuses ts ⟨n + 1, .pipelineItems, c⟩
      (do
        match arrowAhead? (← get) with
        | some relation =>
          let first ← arrow n relation
          return first :: (← pipelineItems n)
        | none =>
          let next ← peekAt 1
          if next.kind = .assign ∨ next.kind = .colon then
            let first ← blockOrAssignment n
            return first :: (← pipelineItems n)
          else
            fail (c.skipSeparators.peekAt 0) .pipelineStep : Rule (List Node))
      c.skipSeparators := by
  refine accuses_get ?_
  cases ha : arrowAhead? c.skipSeparators with
  | some relation =>
    have hroute := (A.arrow hc).of (.inside (.route hname ha))
    exact hroute.bind_consumes (forward n).arrow hc fun first e hfirst he =>
      ((A.pipelineItems he).of (.inside (.behindRoute hname ha hfirst))).returning
  | none =>
    refine accuses_peekAt 1 (accuses_ite (fun hn => ?_) fun hn =>
      accuses_fail (hc.peekAt_mem 0) (.pipelineStep hname ha hn) hname)
    have hstep := (A.blockOrAssignment hc).of (.inside (.step hname ha hn))
    exact hstep.bind_consumes (forward n).blockOrAssignment hc fun first e hfirst he =>
      ((A.pipelineItems he).of (.inside (.behindStep hname ha hn hfirst))).returning

/-- The items of a pipeline. A name that is neither assigned to nor part of an arrow is refused, as is
whatever else stands there. -/
theorem finds_pipelineItems : FindsFault ts (n + 1) .pipelineItems (pipelineItems (n + 1)) := by
  intro c hc
  simp only [pipelineItems]
  have hcs := hc.skipSeparators
  have hmem := hcs.peekAt_mem 0
  have hnamed := accuses_pipelineName A hcs
  have hother : (c.skipSeparators.peekAt 0).kind ≠ .rbrace →
      (c.skipSeparators.peekAt 0).kind ≠ .comment → (c.skipSeparators.peekAt 0).isName = false →
      (c.skipSeparators.peekAt 0).kind ≠ .eof → Accuses ts ⟨n + 1, .pipelineItems, c⟩
        (fail (c.skipSeparators.peekAt 0) (.unexpectedInPipeline (c.skipSeparators.peekAt 0)) :
          Rule (List Node)) c.skipSeparators :=
    fun hb hcomment hn he => accuses_fail hmem (.pipeline hb hcomment hn he) rfl
  refine accuses_skipSeparators (accuses_peek ?_)
  cases hk : (c.skipSeparators.peekAt 0).kind
  case rbrace => exact accuses_advance (accuses_pure _)
  case comment =>
    exact accuses_advance ((A.pipelineItems hcs.skip).of (.inside (.behindComment hk))).returning
  case ident | str => exact hnamed (by simp [Token.isName, hk])
  case eof => exact accuses_fail hmem (.unclosedPipeline hk) hk
  all_goals exact hother (by simp [hk]) (by simp [hk]) (by simp [Token.isName, hk]) (by simp [hk])

end Directives

/-- **Every rule finds fault with a token of its list,** and the fault is about that token. By induction on
the budget, for all rules at once: a rule raises its own faults and hands on those of the rules that it
calls. -/
theorem accusing (ts : List Token) (n : Nat) : Accusing ts n := by
  induction n with
  | zero => exact accusing_zero ts
  | succ n A => exact {
      expression := finds_expression A
      binary := finds_binary A
      climb := finds_climb A
      unary := finds_unary A
      members := finds_members A
      primary := finds_primary A
      items := finds_items A
      body := finds_body A
      bodyItems := finds_bodyItems A
      statement := finds_statement A
      arrow := finds_arrow A
      blockOrAssignment := finds_blockOrAssignment A
      moreValues := finds_moreValues A
      control := finds_control A
      elseChain := finds_elseChain A
      directive := finds_directive A
      execArguments := finds_execArguments A
      moreExecArguments := finds_moreExecArguments A
      pipelineItems := finds_pipelineItems A }

/-- A whole document looks for statements until its end. The faults are theirs. -/
theorem finds_document (ts : List Token) (n : Nat) :
    FindsFault ts n .document (document n) := by
  induction n with
  | zero => exact fun _ => accuses_exhausted
  | succ n ih =>
    intro c hc
    simp only [document]
    have hcs := hc.skipSeparators
    refine accuses_skipSeparators (accuses_peek (accuses_ite (fun _ => accuses_pure _)
      fun hend => ?_))
    have hfirst := ((accusing ts n).statement hcs).of (.inside (.firstOfDocument hend))
    refine hfirst.bind_consumes (forward n).statement hcs fun first e hfirst he => ?_
    exact ((ih he).of (.inside (.moreOfDocument hend hfirst))).returning

/-- A lone expression refuses whatever stands behind it. -/
theorem finds_loneExpression (ts : List Token) (n : Nat) :
    FindsFault ts n .loneExpression (loneExpression n) := by
  intro c hc
  simp only [loneExpression]
  refine (((accusing ts n).expression hc).of .alone).bind_consumes (forward n).expression hc
    fun node e hnode he => accuses_skipComments (accuses_peek ?_)
  exact accuses_ite (fun _ => accuses_pure _) fun hk =>
    accuses_fail (he.skipComments.peekAt_mem 0) (.behindExpression hnode hk) ⟨rfl, hk⟩

end Rule

end BlockConfig
