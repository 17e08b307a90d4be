import BlockConfig.Proofs.Grammar.Shape

/-!
What a rule reads.

A rule that succeeds leaves an end of the tokens it was given, and rules for something that is never
empty have read at least one token. Expressions and lists, bodies and directives end with a token of
their own: whatever comments a rule has passed, it has passed them on the way to something else. The
one exception is the statement that is a comment.

That a rule gets on is the base of every argument that compares two readings: what was still ahead
at the end was ahead all the time.
-/

set_option autoImplicit false

namespace BlockConfig

namespace Cursor

/-! ## 1. Tokens ahead and tokens read -/

/-- The tokens ahead end with the end of input. -/
abbrev Ended (c : Cursor) : Prop :=
  c.Holds fun _ => True

/-- On the way from `c` to `d` tokens are read, and the last of them is of a kind that `p`
allows. -/
structure Reads (p : Kind → Prop) (c d : Cursor) : Prop where
  ended : d.Ended
  read : ∃ front last, c.rest = front ++ last :: d.rest ∧ p last.kind

/-- The kinds that can be the last of a construct with tokens of its own. -/
abbrev IsProper (k : Kind) : Prop :=
  k ≠ .comment

variable {p : Kind → Prop} {c d e : Cursor}

/-- What is left after reading is an end of what was left before. -/
theorem Reads.suffix (h : Reads p c d) : d.rest <:+ c.rest := by
  obtain ⟨front, last, hc, -⟩ := h.read
  exact ⟨front ++ [last], by rw [hc, List.append_assoc]; rfl⟩

/-- It is a shorter one, since at least one token has been read. -/
theorem Reads.shorter (h : Reads p c d) : d.rest.length < c.rest.length := by
  obtain ⟨front, last, hc, -⟩ := h.read
  rw [hc, List.length_append, List.length_cons]
  omega

/-- What is read later is read last. -/
theorem Reads.behind (h : Reads p e d) (hs : e.rest <:+ c.rest) : Reads p c d where
  ended := h.ended
  read := by
    obtain ⟨front, last, he, hp⟩ := h.read
    obtain ⟨before, hc⟩ := hs
    exact ⟨before ++ front, last, by rw [← hc, he, List.append_assoc], hp⟩

/-- A weaker demand on the kind of the last token is met as well. -/
theorem Reads.mono {q : Kind → Prop} (h : Reads p c d) (hpq : ∀ k, p k → q k) : Reads q c d where
  ended := h.ended
  read := by
    obtain ⟨front, last, hc, hp⟩ := h.read
    exact ⟨front, last, hc, hpq _ hp⟩

/-- Passing a token leaves an end of the tokens, at the last of them all of them. -/
theorem suffix_skip (c : Cursor) : c.skip.rest <:+ c.rest := by
  obtain ⟨line, ts⟩ := c
  match ts with
  | [] | [_] => exact List.suffix_rfl
  | t :: u :: rest => exact List.suffix_cons t (u :: rest)

/-- So does passing tokens of some kinds. -/
theorem suffix_skipKinds (q : Kind → Bool) (line : Nat) (ts : List Token) :
    (skipKinds q line ts).rest <:+ ts := by
  fun_induction skipKinds q line ts with
  | case1 line t u rest _ ih => exact ih.trans (List.suffix_cons t (u :: rest))
  | case2 | case3 => exact List.suffix_rfl

theorem suffix_skipComments (c : Cursor) : c.skipComments.rest <:+ c.rest :=
  suffix_skipKinds _ _ _

theorem suffix_skipSeparators (c : Cursor) : c.skipSeparators.rest <:+ c.rest :=
  suffix_skipKinds _ _ _

/-- A token that is not the end of input is read. -/
theorem Holds.reads_skip (hc : c.Ended) {k : Kind} (hk : (c.peekAt 0).kind = k) (he : k ≠ .eof)
    (hp : p k) : Reads p c c.skip where
  ended := hc.skip
  read := by
    obtain ⟨line, ts⟩ := c
    match ts with
    | [] => exact absurd rfl hc.ne_nil
    | [t] =>
      obtain ⟨⟨u, hu, heof⟩, -⟩ := hc
      obtain rfl : t = u := by simpa using hu
      exact absurd (hk.symm.trans heof) he
    | t :: u :: rest => exact ⟨[], t, rfl, hk ▸ hp⟩

/-- A name is read. -/
theorem Holds.reads_name (hc : c.Ended) (hk : (c.peekAt 0).isName = true) :
    Reads IsProper c c.skip := by
  rcases Token.isName_iff.1 hk with hk | hk
  · exact hc.reads_skip hk (by decide) Kind.noConfusion
  · exact hc.reads_skip hk (by decide) Kind.noConfusion

end Cursor

namespace Rule

open Cursor

variable {α : Type}

/-! ## 2. All rules at once -/

/-- A rule that reads something. -/
def Consumes (p : Kind → Prop) (r : Rule α) : Prop :=
  ∀ {c : Cursor} {a : α} {d : Cursor}, c.Ended → r.Gives c a d → c.Reads p d

/-- A rule that reads something or stays where it is. -/
def Continues (r : Rule α) : Prop :=
  ∀ {c : Cursor} {a : α} {d : Cursor}, c.Ended → r.Gives c a d → c.Reads IsProper d ∨ d = c

/-- What all rules with budget `n` read. -/
structure Forward (n : Nat) : Prop where
  expression : Consumes IsProper (expression n)
  binary : ∀ {least : Nat}, Consumes IsProper (binary n least)
  climb : ∀ {least : Nat} {left : Node}, Continues (climb n least left)
  unary : Consumes IsProper (unary n)
  members : ∀ {left : Node}, Continues (members n left)
  primary : Consumes IsProper (primary n)
  items : ∀ {close : Kind} {context : String}, IsProper close → close ≠ .eof →
    Consumes IsProper (items n close context)
  body : ∀ {context : String}, Consumes IsProper (body n context)
  bodyItems : ∀ {context : String}, Consumes IsProper (bodyItems n context)
  statement : Consumes (fun _ => True) (statement n)
  arrow : ∀ {relation : Option Relation}, Consumes IsProper (arrow n relation)
  blockOrAssignment : Consumes IsProper (blockOrAssignment n)
  moreValues : ∀ {limit : Nat}, Continues (moreValues n limit)
  control : Consumes IsProper (control n)
  elseChain : Continues (elseChain n)
  directive : Consumes IsProper (directive n)
  execArguments : ∀ {sign : Token} {cmd args dir : Option Node},
    Consumes IsProper (execArguments n sign cmd args dir)
  moreExecArguments : ∀ {sign : Token} {cmd args dir : Option Node},
    Consumes IsProper (moreExecArguments n sign cmd args dir)
  pipelineItems : Consumes IsProper (pipelineItems n)

theorem forward_zero : Forward 0 := by
  constructor <;> repeat intro
  all_goals
    rename_i h
    exact absurd h (not_gives_exhausted _ _ _)

/-- What follows something that is read may be read as well. -/
theorem Continues.after {r : Rule α} (hr : Continues r) {c e : Cursor} {a : α} {d : Cursor}
    (he : c.Reads IsProper e) (h : r.Gives e a d) :
    c.Reads IsProper d := by
  rcases hr he.ended h with hd | rfl
  · exact hd.behind he.suffix
  · exact he

/-! ### Expressions -/

section Expressions

variable {n : Nat} (F : Forward n)
include F

/-- An expression has read something, and its last token is no comment. This one and the lemmas below are
the steps of one induction: each rule with a budget more, from all rules with one less. -/
theorem forward_expression : Consumes IsProper (expression (n + 1)) := by
  intro c t d hc h
  obtain ⟨condition, e, hb, h⟩ := (gives_expression _ _ _ _).1 h
  have he := F.binary hc hb
  rcases h with ⟨-, -, rfl⟩ | ⟨-, yes, e₁, no, hy, -, hn, -⟩
  · exact he
  · have he₁ := F.expression he.ended.skip hy
    have hd := F.expression he₁.ended.skip hn
    exact hd.behind ((e₁.suffix_skip.trans he₁.suffix).trans (e.suffix_skip.trans he.suffix))

/-- Operands with operators between them have read at least the first operand. -/
theorem forward_binary {least : Nat} : Consumes IsProper (binary (n + 1) least) := by
  intro c t d hc h
  obtain ⟨left, e, hu, hl⟩ := (gives_binary _ _ _ _ _).1 h
  exact Continues.after F.climb (F.unary hc hu) hl

/-- The loop over operators may have read nothing. -/
theorem forward_climb {least : Nat} {left : Node} : Continues (climb (n + 1) least left) := by
  intro c t d hc h
  rcases (gives_climb _ _ _ _ _ _).1 h with ⟨-, -, rfl⟩ | ⟨op, right, e, -, -, hb, hl⟩
  · exact .inr rfl
  · exact .inl (Continues.after F.climb ((F.binary hc.skip hb).behind c.suffix_skip) hl)

/-- A prefix operator is a token of its own. -/
theorem forward_unary : Consumes IsProper (unary (n + 1)) := by
  intro c t d hc h
  rcases (gives_unary _ _ _ _).1 h with ⟨op, operand, -, hu, -⟩ | ⟨-, left, e, hp, hm⟩
  · exact (F.unary hc.skip hu).behind c.suffix_skip
  · exact Continues.after F.members (F.primary hc hp) hm

/-- The loop over members may have read nothing. -/
theorem forward_members {left : Node} : Continues (members (n + 1) left) := by
  intro c t d hc h
  rcases (gives_members _ _ _ _ _).1 h with ⟨-, -, rfl⟩ | ⟨-, hn, hm⟩
  · exact .inr rfl
  · exact .inl (Continues.after F.members ((hc.skip.reads_name hn).behind c.suffix_skip) hm)

/-- Every operand has a token of its own, whichever form it takes; brackets have the closing one as their
last. -/
theorem forward_primary : Consumes IsProper (primary (n + 1)) := by
  intro c t d hc h
  cases (gives_primary _ _ _ _).1 h with
  | number hk | str hk | heredoc hk | bool hk | null hk | ident hk | envRef hk =>
    exact hc.reads_skip hk (by decide) Kind.noConfusion
  | call _ _ _ _ ha =>
    exact (F.items (by decide) Kind.noConfusion hc.skip.skip ha).behind
      (c.skip.suffix_skip.trans c.suffix_skip)
  | @group inner e _ hi hp =>
    have he := F.expression hc.skip hi
    exact (he.ended.reads_skip hp (by decide) Kind.noConfusion).behind
      (he.suffix.trans c.suffix_skip)
  | list _ hi =>
    exact (F.items (by decide) Kind.noConfusion hc.skip hi).behind c.suffix_skip
  | entries _ hb => exact F.body hc hb
  | directive _ hd => exact F.directive hc hd

/-- Items have read the closing token, so they never come away empty. -/
theorem forward_items {close : Kind} {context : String} (hp : IsProper close)
    (he : close ≠ .eof) : Consumes IsProper (items (n + 1) close context) := by
  intro c ns d hc h
  have hcs := hc.skipComments
  rcases (gives_items _ _ _ _ _ _).1 h with ⟨hk, -, rfl⟩ | ⟨-, item, e, hi, h⟩
  · exact (hcs.reads_skip hk he hp).behind c.suffix_skipComments
  · have hitem := (F.expression hcs hi).behind c.suffix_skipComments
    have hes := hitem.ended.skipComments
    have hsuffix := e.suffix_skipComments.trans hitem.suffix
    rcases h with ⟨-, others, ho, -⟩ | ⟨-, hk, -, rfl⟩
    · exact (F.items hp he hes.skip ho).behind (e.skipComments.suffix_skip.trans hsuffix)
    · exact (hes.reads_skip hk he hp).behind hsuffix

end Expressions

/-! ### Statements -/

/-- What is behind the equals sign of several targets is an end of what is ahead. -/
theorem suffix_of_targetList? {ts rest : List Token} {targets : List Target} {sign : Token}
    (h : targetList? ts = some (targets, sign, rest)) : rest <:+ ts := by
  fun_induction targetList? ts generalizing targets with
  | case1 t u rest' _ _ ih =>
    obtain ⟨⟨targets', sign', rest''⟩, ht, he⟩ := Option.map_eq_some_iff.1 h
    simp only [Prod.mk.injEq] at he
    obtain ⟨-, rfl, rfl⟩ := he
    exact (ih ht).trans ((List.suffix_cons _ _).trans (List.suffix_cons _ _))
  | case2 t u rest' =>
    simp only [Option.some.injEq, Prod.mk.injEq] at h
    obtain ⟨-, -, rfl⟩ := h
    exact (List.suffix_cons _ _).trans (List.suffix_cons _ _)
  | case3 | case4 | case5 => simp at h

section Statements

variable {n : Nat} (F : Forward n)
include F

/-- A body has read its braces. -/
theorem forward_body {context : String} : Consumes IsProper (body (n + 1) context) := by
  intro c ns d hc h
  obtain ⟨-, hb⟩ := (gives_body _ _ _ _ _).1 h
  exact (F.bodyItems hc.skip hb).behind c.suffix_skip

/-- The statements of a body have read the closing brace. -/
theorem forward_bodyItems {context : String} : Consumes IsProper (bodyItems (n + 1) context) := by
  intro c ns d hc h
  have hcs := hc.skipSeparators
  rcases (gives_bodyItems _ _ _ _ _).1 h with ⟨hk, -, rfl⟩ |
    ⟨-, -, first, e, others, hf, ho, -⟩
  · exact (hcs.reads_skip hk (by decide) Kind.noConfusion).behind c.suffix_skipSeparators
  · have he := F.statement hcs hf
    exact (F.bodyItems he.ended ho).behind (he.suffix.trans c.suffix_skipSeparators)

/-- A statement has read something. It is the one construct that may end with a comment, because it may be
one. -/
theorem forward_statement : Consumes (fun _ => True) (statement (n + 1)) := by
  intro c t d hc h
  cases (gives_statement _ _ _ _).1 h with
  | comment hk => exact hc.reads_skip hk (by decide) trivial
  | directive _ hd => exact (F.directive hc hd).mono fun _ _ => trivial
  | control _ hb => exact (F.control hc hb).mono fun _ _ => trivial
  | arrow _ _ hr => exact (F.arrow hc hr).mono fun _ _ => trivial
  | named _ _ hb => exact (F.blockOrAssignment hc hb).mono fun _ _ => trivial

/-- An arrow ends with its second name or with the brace of its properties. -/
theorem forward_arrow {relation : Option Relation} :
    Consumes IsProper (arrow (n + 1) relation) := by
  intro c t d hc h
  obtain ⟨e, he, -, -, ht, properties, hp, -⟩ := (gives_arrow _ _ _ _ _).1 h
  -- Behind the relation, if there is one.
  have hends : e.Ended ∧ e.rest <:+ c.rest := by
    rw [he]
    split
    · exact ⟨hc.skip, c.suffix_skip⟩
    · exact ⟨hc, List.suffix_rfl⟩
  have htarget : c.Reads IsProper e.skip.skip.skip :=
    (hends.1.skip.skip.reads_name ht).behind
      ((e.skip.suffix_skip.trans e.suffix_skip).trans hends.2)
  rcases hp with ⟨-, hb⟩ | ⟨-, -, rfl⟩
  · exact (F.body htarget.ended hb).behind htarget.suffix
  · exact htarget

/-- A statement that begins with a name ends with that name, with a value or with a brace. -/
theorem forward_blockOrAssignment : Consumes IsProper (blockOrAssignment (n + 1)) := by
  intro c t d hc h
  -- Several targets are passed over at once, and values are read behind them.
  have values : ∀ {targets : List Target} {sign : Token} {rest : List Token} {first : Node}
      {others : List Node} {e d : Cursor}, (c.peekAt 1).kind = .comma →
      targetList? c.rest = some (targets, sign, rest) →
      (expression n).Gives ⟨sign.pos.line, rest⟩ first e →
      (moreValues n (targets.length - 1)).Gives e others d → c.Reads IsProper d := by
    intro targets sign rest first others e d hn ht hf ho
    have hsign : Cursor.Ended ⟨sign.pos.line, rest⟩ := (targets_of_targetList? hc ht hn).2.2
    have hfirst := (F.expression hsign hf).behind (suffix_of_targetList? ht)
    exact Continues.after F.moreValues hfirst ho
  cases (gives_blockOrAssignment _ _ _ _).1 h with
  | block _ hb => exact (F.body hc.skip hb).behind c.suffix_skip
  | labelled _ _ _ hb =>
    exact (F.body hc.skip.skip hb).behind (c.skip.suffix_skip.trans c.suffix_skip)
  | assign _ hv =>
    exact (F.expression hc.skip.skip hv).behind (c.skip.suffix_skip.trans c.suffix_skip)
  | assignEach _ hn ht hf ho => exact values hn ht hf ho
  | destructure _ hn ht hf ho => exact values hn ht hf ho
  | flag hk => exact hc.reads_skip hk (by decide) Kind.noConfusion

/-- There may be no more values. -/
theorem forward_moreValues {limit : Nat} : Continues (moreValues (n + 1) limit) := by
  intro c ns d hc h
  cases limit with
  | zero => exact .inr ((gives_moreValues_zero _ _ _ _).1 h).2
  | succ limit =>
    rcases (gives_moreValues _ _ _ _ _).1 h with ⟨-, -, rfl⟩ | ⟨-, value, e, others, hv, ho, -⟩
    · exact .inr rfl
    · exact .inl (Continues.after F.moreValues ((F.expression hc.skip hv).behind c.suffix_skip) ho)

/-- A chain has read its first body. -/
theorem forward_control : Consumes IsProper (control (n + 1)) := by
  intro c bs d hc h
  obtain ⟨condition, e, statements, e₁, others, hx, hb, ho, -⟩ := (gives_control _ _ _ _).1 h
  have he := (F.expression hc.skip hx).behind c.suffix_skip
  exact Continues.after F.elseChain ((F.body he.ended hb).behind he.suffix) ho

/-- There may be no more links. -/
theorem forward_elseChain : Continues (elseChain (n + 1)) := by
  intro c bs d hc h
  have hcs := hc.skipComments
  have hsuffix := c.skipComments.suffix_skip.trans c.suffix_skipComments
  rcases (gives_elseChain _ _ _ _).1 h with ⟨-, -, rfl⟩ | ⟨-, ⟨-, h⟩ | ⟨-, ⟨-, h⟩ |
    ⟨-, statements, hb, -⟩⟩⟩
  · exact .inr rfl
  · exact .inl ((F.control hcs h).behind c.suffix_skipComments)
  · exact .inl ((F.control hcs.skip h).behind hsuffix)
  · exact .inl ((F.body hcs.skip hb).behind hsuffix)

end Statements

/-! ### Directives -/

section Directives

variable {n : Nat} (F : Forward n)
include F

/-- A directive ends with its target, its bracket or its brace. -/
theorem forward_directive : Consumes IsProper (directive (n + 1)) := by
  intro c t d hc h
  have hsuffix := c.skip.suffix_skip.trans c.suffix_skip
  have hthird := c.skip.skip.suffix_skip.trans hsuffix
  obtain ⟨-, -, h⟩ := (gives_directive _ _ _ _).1 h
  cases h with
  | inclusion _ ht => exact (F.expression hc.skip.skip ht).behind hsuffix
  | exec _ _ ha => exact (F.execArguments hc.skip.skip.skip ha).behind hthird
  | pipeline _ _ hi => exact (F.pipelineItems hc.skip.skip.skip hi).behind hthird

omit F in
/-- The parenthesis that closes `@exec`. -/
theorem reads_execNode {sign : Token} {cmd args dir : Option Node} {c : Cursor} {t : Node}
    {d : Cursor} (hc : c.Ended) (hk : (c.peekAt 0).kind = .rparen)
    (h : (execNode sign cmd args dir).Gives c.skip t d) : c.Reads IsProper d := by
  obtain ⟨program, -, -, rfl⟩ := (gives_execNode _ _ _ _ _ _ _).1 h
  exact hc.reads_skip hk (by decide) Kind.noConfusion

/-- The arguments of an execution have read the closing bracket. -/
theorem forward_execArguments {sign : Token} {cmd args dir : Option Node} :
    Consumes IsProper (execArguments (n + 1) sign cmd args dir) := by
  intro c t d hc h
  have hcs := hc.skipComments
  rcases (gives_execArguments _ _ _ _ _ _ _ _).1 h with ⟨hk, h⟩ | ⟨-, -, value, e, hv, h⟩
  · exact (reads_execNode hcs hk h).behind c.suffix_skipComments
  · have he := (F.expression hcs.skip.skip hv).behind
      ((c.skipComments.skip.suffix_skip.trans c.skipComments.suffix_skip).trans
        c.suffix_skipComments)
    rcases h with ⟨-, h⟩ | ⟨-, h⟩ | ⟨-, h⟩
    all_goals exact (F.moreExecArguments he.ended h).behind he.suffix

/-- So has what follows an argument. -/
theorem forward_moreExecArguments {sign : Token} {cmd args dir : Option Node} :
    Consumes IsProper (moreExecArguments (n + 1) sign cmd args dir) := by
  intro c t d hc h
  have hcs := hc.skipComments
  rcases (gives_moreExecArguments _ _ _ _ _ _ _ _).1 h with ⟨-, h⟩ | ⟨hk, h⟩
  · exact (F.execArguments hcs.skip h).behind
      (c.skipComments.suffix_skip.trans c.suffix_skipComments)
  · exact (reads_execNode hcs hk h).behind c.suffix_skipComments

/-- The items of a pipeline have read the closing brace. -/
theorem forward_pipelineItems : Consumes IsProper (pipelineItems (n + 1)) := by
  intro c ns d hc h
  have hcs := hc.skipSeparators
  refine Reads.behind ?_ c.suffix_skipSeparators
  cases (gives_pipelineItems _ _ _ _).1 h with
  | close hk => exact hcs.reads_skip hk (by decide) Kind.noConfusion
  | comment _ ho => exact (F.pipelineItems hcs.skip ho).behind (suffix_skip _)
  | arrow _ _ hf ho =>
    have he := F.arrow hcs hf
    exact (F.pipelineItems he.ended ho).behind he.suffix
  | step _ _ _ hf ho =>
    have he := F.blockOrAssignment hcs hf
    exact (F.pipelineItems he.ended ho).behind he.suffix

end Directives

/-- **Every rule gets on,** whatever its budget: it reads a token at least or, where it may find nothing to
read, stays where it is, and the end of input is still ahead. By induction on the budget, for all rules at
once. -/
theorem forward (n : Nat) : Forward n := by
  induction n with
  | zero => exact forward_zero
  | succ n F => exact {
      expression := forward_expression F
      binary := forward_binary F
      climb := forward_climb F
      unary := forward_unary F
      members := forward_members F
      primary := forward_primary F
      items := forward_items F
      body := forward_body F
      bodyItems := forward_bodyItems F
      statement := forward_statement F
      arrow := forward_arrow F
      blockOrAssignment := forward_blockOrAssignment F
      moreValues := forward_moreValues F
      control := forward_control F
      elseChain := forward_elseChain F
      directive := forward_directive F
      execArguments := forward_execArguments F
      moreExecArguments := forward_moreExecArguments F
      pipelineItems := forward_pipelineItems F }

/-! ## 3. The brace that closes -/

/-- What a body ends with is its brace. -/
theorem bodyItems_reads_rbrace (n : Nat) {context : String} :
    Consumes (· = .rbrace) (bodyItems n context) := by
  induction n with
  | zero => exact fun _ h => absurd h (not_gives_exhausted _ _ _)
  | succ n ih =>
    intro c ns d hc h
    have hcs := hc.skipSeparators
    rcases (gives_bodyItems _ _ _ _ _).1 h with ⟨hk, -, rfl⟩ |
      ⟨-, -, first, e, others, hf, ho, -⟩
    · exact (hcs.reads_skip (p := (· = .rbrace)) hk (by decide) rfl).behind
        c.suffix_skipSeparators
    · have he := (forward n).statement hcs hf
      exact (ih he.ended ho).behind (he.suffix.trans c.suffix_skipSeparators)

/-- What a pipeline ends with is its brace. -/
theorem pipelineItems_reads_rbrace (n : Nat) : Consumes (· = .rbrace) (pipelineItems n) := by
  induction n with
  | zero => exact fun _ h => absurd h (not_gives_exhausted _ _ _)
  | succ n ih =>
    intro c ns d hc h
    have hcs := hc.skipSeparators
    refine Reads.behind ?_ c.suffix_skipSeparators
    cases (gives_pipelineItems _ _ _ _).1 h with
    | close hk => exact hcs.reads_skip (p := (· = .rbrace)) hk (by decide) rfl
    | comment _ ho => exact (ih hcs.skip ho).behind (suffix_skip _)
    | arrow _ _ hf ho =>
      have he := (forward n).arrow hcs hf
      exact (ih he.ended ho).behind he.suffix
    | step _ _ _ hf ho =>
      have he := (forward n).blockOrAssignment hcs hf
      exact (ih he.ended ho).behind he.suffix

end Rule

end BlockConfig
