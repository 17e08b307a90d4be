import BlockConfig.Proofs.Grammar.Transfer

/-!
The budget of a reading.

Every rule takes a budget, and a rule without one is `exhausted`. The budget bounds how deep the
rules call each other and has no other part in what is read: whatever a rule reads with some budget
it reads with any that is ten for each token ahead and a little more (`Rule.afforded`). How much
more depends on how many rules a rule can call, one from within the other, before a token is read.
So the budget a document is read with is never what it fails for.
-/

set_option autoImplicit false

namespace BlockConfig

open Cursor

namespace Cursor

/-- If something is read behind a token, that token is not the last one. -/
theorem Reads.length_skip {p : Kind → Prop} {c d : Cursor} (h : Reads p c.skip d) :
    c.skip.rest.length + 1 = c.rest.length := by
  refine Seam.length_skip ?_
  have h1 := h.shorter
  have h2 := List.length_pos_iff.2 h.ended.ne_nil
  have h3 := c.length_skip_le
  omega

end Cursor

namespace Rule

variable {α : Type}

/-- What a rule reads with budget `n` it reads with any budget that is ten for each token ahead and
`extra`. -/
def Affords (extra n : Nat) (r : Nat → Rule α) : Prop :=
  ∀ {c : Cursor} {a : α} {d : Cursor}, c.Ended → (r n).Gives c a d →
    ∀ k, 10 * c.rest.length + extra ≤ k → (r k).Gives c a d

/-- How much all rules need for what they read with budget `n`. -/
structure Afforded (n : Nat) : Prop where
  expression : Affords 5 n expression
  binary : ∀ {least : Nat}, Affords 4 n (binary · least)
  climb : ∀ {least : Nat} {left : Node}, Affords 1 n (climb · least left)
  unary : Affords 3 n unary
  members : ∀ {left : Node}, Affords 1 n (members · left)
  primary : Affords 2 n primary
  items : ∀ {close : Kind} {context : String}, IsProper close → close ≠ .eof →
    Affords 6 n (items · close context)
  body : ∀ {context : String}, Affords 1 n (body · context)
  bodyItems : ∀ {context : String}, Affords 3 n (bodyItems · context)
  statement : Affords 2 n statement
  arrow : ∀ {relation : Option Relation}, Affords 1 n (arrow · relation)
  blockOrAssignment : Affords 1 n blockOrAssignment
  moreValues : ∀ {limit : Nat}, Affords 1 n (moreValues · limit)
  control : Affords 1 n control
  elseChain : Affords 2 n elseChain
  directive : Affords 1 n directive
  execArguments : ∀ {sign : Token} {cmd args dir : Option Node},
    Affords 1 n (execArguments · sign cmd args dir)
  moreExecArguments : ∀ {sign : Token} {cmd args dir : Option Node},
    Affords 1 n (moreExecArguments · sign cmd args dir)
  pipelineItems : Affords 2 n pipelineItems

theorem afforded_zero : Afforded 0 := by
  constructor <;> repeat intro
  all_goals
    rename_i h _ _
    exact absurd h (not_gives_exhausted _ _ _)

/-- It is enough to look at budgets that are not used up. -/
theorem Affords.succ {extra n : Nat} {r : Nat → Rule α}
    (h : ∀ {c : Cursor} {a : α} {d : Cursor}, c.Ended → (r (n + 1)).Gives c a d →
      ∀ k, 10 * c.rest.length + extra ≤ k → (r (k + 1)).Gives c a d) :
    Affords (extra + 1) (n + 1) r := by
  intro c a d hc hr k hk
  obtain ⟨k, rfl⟩ : ∃ j, k = j + 1 := ⟨k - 1, by omega⟩
  exact h hc hr k (by omega)

/-! ## 1. Expressions -/

section Expressions

variable {n : Nat} (A : Afforded n)
include A

/-- A choice needs one level more than its condition, which comes first. All else stands behind its mark,
and so with fewer tokens ahead. -/
theorem affords_expression : Affords 5 (n + 1) expression := by
  apply Affords.succ
  intro c t d hc h k hk
  obtain ⟨condition, e, hb, h⟩ := (gives_expression _ _ _ _).1 h
  refine (gives_expression _ _ _ _).2 ⟨condition, e, A.binary hc hb k (by omega), ?_⟩
  have he := (forward n).binary hc hb
  rcases h with ⟨hq, rfl, rfl⟩ | ⟨hq, yes, e₁, no, hy, hcolon, hn, rfl⟩
  · exact .inl ⟨hq, rfl, rfl⟩
  · have he₁ := (forward n).expression he.ended.skip hy
    have l₁ := he.shorter
    have l₂ := he₁.shorter
    have l₃ := e.length_skip_le
    have l₄ := e₁.length_skip_le
    exact .inr ⟨hq, yes, e₁, no, A.expression he.ended.skip hy k (by omega), hcolon,
      A.expression he₁.ended.skip hn k (by omega), rfl⟩

/-- Operands with operators between them need one level more than the first operand. When the loop behind it
begins, a token has been read. -/
theorem affords_binary {least : Nat} : Affords 4 (n + 1) (binary · least) := by
  apply Affords.succ
  intro c t d hc h k hk
  obtain ⟨left, e, hu, hl⟩ := (gives_binary _ _ _ _ _).1 h
  have he := (forward n).unary hc hu
  have l₁ := he.shorter
  exact (gives_binary _ _ _ _ _).2 ⟨left, e, A.unary hc hu k (by omega),
    A.climb he.ended hl k (by omega)⟩

/-- The loop needs one. Each turn reads an operator, which pays for the operand behind it. -/
theorem affords_climb {least : Nat} {left : Node} : Affords 1 (n + 1) (climb · least left) := by
  apply Affords.succ
  intro c t d hc h k hk
  rcases (gives_climb _ _ _ _ _ _).1 h with ⟨ho, rfl, rfl⟩ | ⟨op, right, e, ho, hle, hb, hl⟩
  · exact (gives_climb _ _ _ _ _ _).2 (.inl ⟨ho, rfl, rfl⟩)
  · have he := (forward n).binary hc.skip hb
    have l₁ := he.length_skip
    have l₂ := he.shorter
    exact (gives_climb _ _ _ _ _ _).2 (.inr ⟨op, right, e, ho, hle,
      A.binary hc.skip hb k (by omega), A.climb he.ended hl k (by omega)⟩)

/-- A prefix operator pays for its operand. -/
theorem affords_unary : Affords 3 (n + 1) unary := by
  apply Affords.succ
  intro c t d hc h k hk
  rcases (gives_unary _ _ _ _).1 h with ⟨op, operand, ho, hu, rfl⟩ | ⟨ho, left, e, hp, hm⟩
  · have l₁ := ((forward n).unary hc.skip hu).length_skip
    exact (gives_unary _ _ _ _).2 (.inl ⟨op, operand, ho, A.unary hc.skip hu k (by omega), rfl⟩)
  · have he := (forward n).primary hc hp
    have l₁ := he.shorter
    exact (gives_unary _ _ _ _).2 (.inr ⟨ho, left, e, A.primary hc hp k (by omega),
      A.members he.ended hm k (by omega)⟩)

/-- Each member pays for the next. -/
theorem affords_members {left : Node} : Affords 1 (n + 1) (members · left) := by
  apply Affords.succ
  intro c t d hc h k hk
  rcases (gives_members _ _ _ _ _).1 h with ⟨hd, rfl, rfl⟩ | ⟨hd, hn, hm⟩
  · exact (gives_members _ _ _ _ _).2 (.inl ⟨hd, rfl, rfl⟩)
  · have l₁ := (hc.skip.reads_name hn).length_skip
    have l₂ := c.skip.length_skip_le
    exact (gives_members _ _ _ _ _).2
      (.inr ⟨hd, hn, A.members hc.skip.skip hm k (by omega)⟩)

/-- Every bracket pays for what it holds; a single token needs nothing more. -/
theorem affords_primary : Affords 2 (n + 1) primary := by
  apply Affords.succ
  intro c t d hc h k hk
  have l₁ := c.skip.length_skip_le
  refine (gives_primary _ _ _ _).2 ?_
  cases (gives_primary _ _ _ _).1 h with
  | number hkind hv => exact .number hkind hv
  | str hkind => exact .str hkind
  | heredoc hkind => exact .heredoc hkind
  | bool hkind => exact .bool hkind
  | null hkind hn => exact .null hkind hn
  | call hkind hn hp hl ha =>
    have l₂ := (hc.reads_skip (p := fun _ => True) hkind Kind.noConfusion trivial).shorter
    exact .call hkind hn hp hl (A.items (by decide) Kind.noConfusion hc.skip.skip ha k (by omega))
  | ident hkind hn hp => exact .ident hkind hn hp
  | envRef hkind => exact .envRef hkind
  | group hkind hi hp =>
    have l₂ := ((forward n).expression hc.skip hi).length_skip
    exact .group hkind (A.expression hc.skip hi k (by omega)) hp
  | list hkind hi =>
    have l₂ := ((forward n).items (by decide) Kind.noConfusion hc.skip hi).length_skip
    exact .list hkind (A.items (by decide) Kind.noConfusion hc.skip hi k (by omega))
  | entries hkind hb => exact .entries hkind (A.body hc hb k (by omega))
  | directive hkind hd => exact .directive hkind (A.directive hc hd k (by omega))

/-- Items need one more than an expression, and each comma pays for the next item. -/
theorem affords_items {close : Kind} {context : String} (hp : IsProper close) (he : close ≠ .eof) :
    Affords 6 (n + 1) (items · close context) := by
  apply Affords.succ
  intro c ns d hc h k hk
  have hcs := hc.skipComments
  have l₁ := c.length_skipComments_le
  rcases (gives_items _ _ _ _ _ _).1 h with ⟨hkind, rfl, rfl⟩ | ⟨hkind, item, e, hi, h⟩
  · exact (gives_items _ _ _ _ _ _).2 (.inl ⟨hkind, rfl, rfl⟩)
  · refine (gives_items _ _ _ _ _ _).2
      (.inr ⟨hkind, item, e, A.expression hcs hi k (by omega), ?_⟩)
    have hitem := (forward n).expression hcs hi
    have hes := hitem.ended.skipComments
    have l₂ := hitem.shorter
    have l₃ := e.length_skipComments_le
    have l₄ := e.skipComments.length_skip_le
    rcases h with ⟨hcomma, others, ho, rfl⟩ | ⟨hcomma, hend, rfl, rfl⟩
    · exact .inl ⟨hcomma, others, A.items hp he hes.skip ho k (by omega), rfl⟩
    · exact .inr ⟨hcomma, hend, rfl, rfl⟩

end Expressions

/-! ## 2. Statements -/

/-- Behind the equals sign of several targets less is left than in front of them. -/
theorem length_lt_of_targetList? {ts rest : List Token} {targets : List Target} {sign : Token}
    (h : targetList? ts = some (targets, sign, rest)) : rest.length < ts.length := by
  match ts with
  | [] | [_] => simp [targetList?] at h
  | t :: u :: us =>
    have hrest : rest <:+ us := by
      simp only [targetList?] at h
      split at h
      · split at h
        · obtain ⟨⟨_, _, _⟩, ht, he⟩ := Option.map_eq_some_iff.1 h
          simp only [Prod.mk.injEq] at he
          exact he.2.2 ▸ suffix_of_targetList? ht
        · split at h
          · simp only [Option.some.injEq, Prod.mk.injEq] at h
            exact h.2.2 ▸ List.suffix_rfl
          · cases h
      · cases h
    have hle := hrest.length_le
    simp only [List.length_cons]
    omega

section Statements

variable {n : Nat} (A : Afforded n)
include A

/-- The brace pays for the statements. -/
theorem affords_body {context : String} : Affords 1 (n + 1) (body · context) := by
  apply Affords.succ
  intro c ns d hc h k hk
  obtain ⟨hkind, hb⟩ := (gives_body _ _ _ _ _).1 h
  have l₁ := ((forward n).bodyItems hc.skip hb).length_skip
  exact (gives_body _ _ _ _ _).2 ⟨hkind, A.bodyItems hc.skip hb k (by omega)⟩

/-- Each statement has read a token, which pays for the next. -/
theorem affords_bodyItems {context : String} : Affords 3 (n + 1) (bodyItems · context) := by
  apply Affords.succ
  intro c ns d hc h k hk
  have hcs := hc.skipSeparators
  have l₁ := c.length_skipSeparators_le
  rcases (gives_bodyItems _ _ _ _ _).1 h with ⟨hkind, rfl, rfl⟩ |
    ⟨hkind, heof, first, e, others, hs, ho, rfl⟩
  · exact (gives_bodyItems _ _ _ _ _).2 (.inl ⟨hkind, rfl, rfl⟩)
  · have he := (forward n).statement hcs hs
    have l₂ := he.shorter
    exact (gives_bodyItems _ _ _ _ _).2 (.inr ⟨hkind, heof, first, e, others,
      A.statement hcs hs k (by omega), A.bodyItems he.ended ho k (by omega), rfl⟩)

/-- A statement needs one more than what it turns out to be. -/
theorem affords_statement : Affords 2 (n + 1) statement := by
  apply Affords.succ
  intro c t d hc h k hk
  refine (gives_statement _ _ _ _).2 ?_
  cases (gives_statement _ _ _ _).1 h with
  | comment hkind => exact .comment hkind
  | directive hkind hd => exact .directive hkind (A.directive hc hd k hk)
  | control hkind hb => exact .control hkind (A.control hc hb k hk)
  | arrow hname ha hr => exact .arrow hname ha (A.arrow hc hr k hk)
  | named hname ha hb => exact .named hname ha (A.blockOrAssignment hc hb k hk)

/-- The names of an arrow pay for its properties. -/
theorem affords_arrow {relation : Option Relation} : Affords 1 (n + 1) (arrow · relation) := by
  apply Affords.succ
  intro c t d hc h k hk
  obtain ⟨e, he, hs, ha, ht, properties, hp, rfl⟩ := (gives_arrow _ _ _ _ _).1 h
  refine (gives_arrow _ _ _ _ _).2 ⟨e, he, hs, ha, ht, properties, ?_, rfl⟩
  rcases hp with ⟨hkind, hb⟩ | ⟨hkind, rfl, rfl⟩
  · have hends : e.Ended ∧ e.rest.length ≤ c.rest.length := by
      rw [he]
      split
      · exact ⟨hc.skip, c.length_skip_le⟩
      · exact ⟨hc, Nat.le_refl _⟩
    have l₁ := (hends.1.reads_name hs).shorter
    have l₂ := e.skip.length_skip_le
    have l₃ := e.skip.skip.length_skip_le
    exact .inl ⟨hkind, A.body hends.1.skip.skip.skip hb k (by omega)⟩
  · exact .inr ⟨hkind, rfl, rfl⟩

/-- A name pays for all that follows it. This is the longest case, since the forms differ in how many tokens
have been read before an expression is looked for. -/
theorem affords_blockOrAssignment : Affords 1 (n + 1) blockOrAssignment := by
  apply Affords.succ
  intro c t d hc h k hk
  have l₁ := c.skip.length_skip_le
  -- Several targets are passed over at once, and values are read behind them.
  have values : ∀ {targets : List Target} {sign : Token} {rest : List Token} {first : Node}
      {others : List Node} {e : Cursor}, (c.peekAt 1).kind = .comma →
      targetList? c.rest = some (targets, sign, rest) →
      (expression n).Gives ⟨sign.pos.line, rest⟩ first e →
      (moreValues n (targets.length - 1)).Gives e others d →
      (expression k).Gives ⟨sign.pos.line, rest⟩ first e ∧
        (moreValues k (targets.length - 1)).Gives e others d := by
    intro targets sign rest first others e hn ht hf ho
    have hsign : Cursor.Ended ⟨sign.pos.line, rest⟩ := (targets_of_targetList? hc ht hn).2.2
    have he := (forward n).expression hsign hf
    have l₂ := length_lt_of_targetList? ht
    have l₃ := he.shorter
    exact ⟨A.expression hsign hf k (by simp only; omega),
      A.moreValues he.ended ho k (by simp only at l₃; omega)⟩
  refine (gives_blockOrAssignment _ _ _ _).2 ?_
  cases (gives_blockOrAssignment _ _ _ _).1 h with
  | block hn hb =>
    have l₂ := ((forward n).body hc.skip hb).length_skip
    exact .block hn (A.body hc.skip hb k (by omega))
  | labelled hn hl h2 hb =>
    have hd := (forward n).body hc.skip.skip hb
    have l₂ := hd.length_skip
    exact .labelled hn hl h2 (A.body hc.skip.skip hb k (by have := c.length_skip_le; omega))
  | assign hn hv =>
    have l₂ := ((forward n).expression hc.skip.skip hv).length_skip
    exact .assign hn (A.expression hc.skip.skip hv k (by have := c.length_skip_le; omega))
  | assignEach hkind hn ht hf ho hl =>
    obtain ⟨hf, ho⟩ := values hn ht hf ho
    exact .assignEach hkind hn ht hf ho hl
  | destructure hkind hn ht hf ho hl =>
    obtain ⟨hf, ho⟩ := values hn ht hf ho
    exact .destructure hkind hn ht hf ho hl
  | flag hkind hb hl ha ht => exact .flag hkind hb hl ha ht

/-- Each comma pays for the value behind it. -/
theorem affords_moreValues {limit : Nat} : Affords 1 (n + 1) (moreValues · limit) := by
  apply Affords.succ
  intro c ns d hc h k hk
  cases limit with
  | zero => exact (gives_moreValues_zero _ _ _ _).2 ((gives_moreValues_zero _ _ _ _).1 h)
  | succ limit =>
    rcases (gives_moreValues _ _ _ _ _).1 h with ⟨hkind, rfl, rfl⟩ |
      ⟨hkind, value, e, others, hv, ho, rfl⟩
    · exact (gives_moreValues _ _ _ _ _).2 (.inl ⟨hkind, rfl, rfl⟩)
    · have he := (forward n).expression hc.skip hv
      have l₁ := he.length_skip
      have l₂ := he.shorter
      exact (gives_moreValues _ _ _ _ _).2 (.inr ⟨hkind, value, e, others,
        A.expression hc.skip hv k (by omega), A.moreValues he.ended ho k (by omega), rfl⟩)

/-- The keyword pays for the condition, the condition for the body, the body for the rest. -/
theorem affords_control : Affords 1 (n + 1) control := by
  apply Affords.succ
  intro c bs d hc h k hk
  obtain ⟨condition, e, statements, e₁, others, hx, hb, ho, rfl⟩ := (gives_control _ _ _ _).1 h
  have he := (forward n).expression hc.skip hx
  have he₁ := (forward n).body he.ended hb
  have l₁ := he.length_skip
  have l₂ := he.shorter
  have l₃ := he₁.shorter
  exact (gives_control _ _ _ _).2 ⟨condition, e, statements, e₁, others,
    A.expression hc.skip hx k (by omega), A.body he.ended hb k (by omega),
    A.elseChain he₁.ended ho k (by omega), rfl⟩

/-- The keyword of a link pays for the link. -/
theorem affords_elseChain : Affords 2 (n + 1) elseChain := by
  apply Affords.succ
  intro c bs d hc h k hk
  have hcs := hc.skipComments
  have l₁ := c.length_skipComments_le
  have l₂ := c.skipComments.length_skip_le
  refine (gives_elseChain _ _ _ _).2 ?_
  rcases (gives_elseChain _ _ _ _).1 h with h | ⟨ha, h⟩
  · exact .inl h
  · refine .inr ⟨ha, ?_⟩
    rcases h with ⟨hkind, h⟩ | ⟨hkind, ⟨hif, h⟩ | ⟨hif, statements, hb, rfl⟩⟩
    · exact .inl ⟨hkind, A.control hcs h k (by omega)⟩
    · exact .inr ⟨hkind, .inl ⟨hif, A.control hcs.skip h k (by omega)⟩⟩
    · exact .inr ⟨hkind, .inr ⟨hif, statements, A.body hcs.skip hb k (by omega), rfl⟩⟩

end Statements

/-! ## 3. Directives -/

section Directives

variable {n : Nat} (A : Afforded n)
include A

/-- The sign and the name pay for what follows. -/
theorem affords_directive : Affords 1 (n + 1) directive := by
  apply Affords.succ
  intro c t d hc h k hk
  obtain ⟨hsign, hname, h⟩ := (gives_directive _ _ _ _).1 h
  have l₁ := (hc.reads_skip (p := fun _ => True) hsign Kind.noConfusion trivial).shorter
  have l₂ := c.skip.length_skip_le
  have l₃ := c.skip.skip.length_skip_le
  refine (gives_directive _ _ _ _).2 ⟨hsign, hname, ?_⟩
  cases h with
  | inclusion hn ht => exact .inclusion hn (A.expression hc.skip.skip ht k (by omega))
  | exec hn hp ha => exact .exec hn hp (A.execArguments hc.skip.skip.skip ha k (by omega))
  | pipeline hn hb hi => exact .pipeline hn hb (A.pipelineItems hc.skip.skip.skip hi k (by omega))

/-- The name and the equals sign of an argument pay for its value. -/
theorem affords_execArguments {sign : Token} {cmd args dir : Option Node} :
    Affords 1 (n + 1) (execArguments · sign cmd args dir) := by
  apply Affords.succ
  intro c t d hc h k hk
  have hcs := hc.skipComments
  have l₁ := c.length_skipComments_le
  refine (gives_execArguments _ _ _ _ _ _ _ _).2 ?_
  rcases (gives_execArguments _ _ _ _ _ _ _ _).1 h with h | ⟨hkind, heq, value, e, hv, h⟩
  · exact .inl h
  · have he := (forward n).expression hcs.skip.skip hv
    have l₂ := (hcs.reads_skip (p := fun _ => True) hkind Kind.noConfusion trivial).shorter
    have l₃ := c.skipComments.skip.length_skip_le
    have l₄ := he.shorter
    refine .inr ⟨hkind, heq, value, e, A.expression hcs.skip.skip hv k (by omega), ?_⟩
    rcases h with ⟨hn, h⟩ | ⟨hn, h⟩ | ⟨hn, h⟩
    · exact .inl ⟨hn, A.moreExecArguments he.ended h k (by omega)⟩
    · exact .inr (.inl ⟨hn, A.moreExecArguments he.ended h k (by omega)⟩)
    · exact .inr (.inr ⟨hn, A.moreExecArguments he.ended h k (by omega)⟩)

/-- The comma pays for the next argument. -/
theorem affords_moreExecArguments {sign : Token} {cmd args dir : Option Node} :
    Affords 1 (n + 1) (moreExecArguments · sign cmd args dir) := by
  apply Affords.succ
  intro c t d hc h k hk
  have hcs := hc.skipComments
  have l₁ := c.length_skipComments_le
  refine (gives_moreExecArguments _ _ _ _ _ _ _ _).2 ?_
  rcases (gives_moreExecArguments _ _ _ _ _ _ _ _).1 h with ⟨hkind, h⟩ | h
  · have l₂ := (hcs.reads_skip (p := fun _ => True) hkind Kind.noConfusion trivial).shorter
    exact .inl ⟨hkind, A.execArguments hcs.skip h k (by omega)⟩
  · exact .inr h

/-- Each item pays for the next. -/
theorem affords_pipelineItems : Affords 2 (n + 1) pipelineItems := by
  apply Affords.succ
  intro c ns d hc h k hk
  have hcs := hc.skipSeparators
  have l₁ := c.length_skipSeparators_le
  refine (gives_pipelineItems _ _ _ _).2 ?_
  cases (gives_pipelineItems _ _ _ _).1 h with
  | close hkind => exact .close hkind
  | comment hkind ho =>
    have l₂ := (hcs.reads_skip (p := fun _ => True) hkind Kind.noConfusion trivial).shorter
    exact .comment hkind (A.pipelineItems hcs.skip ho k (by omega))
  | arrow hname ha hr ho =>
    have he := (forward n).arrow hcs hr
    have l₂ := he.shorter
    exact .arrow hname ha (A.arrow hcs hr k (by omega)) (A.pipelineItems he.ended ho k (by omega))
  | step hname ha hn hb ho =>
    have he := (forward n).blockOrAssignment hcs hb
    have l₂ := he.shorter
    exact .step hname ha hn (A.blockOrAssignment hcs hb k (by omega))
      (A.pipelineItems he.ended ho k (by omega))

end Directives

/-- **No rule needs more than ten for each token ahead** and a little more. By induction on the budget with
which it has succeeded, with one lemma for each rule. -/
theorem afforded (n : Nat) : Afforded n := by
  induction n with
  | zero => exact afforded_zero
  | succ n A => exact {
      expression := affords_expression A
      binary := affords_binary A
      climb := affords_climb A
      unary := affords_unary A
      members := affords_members A
      primary := affords_primary A
      items := affords_items A
      body := affords_body A
      bodyItems := affords_bodyItems A
      statement := affords_statement A
      arrow := affords_arrow A
      blockOrAssignment := affords_blockOrAssignment A
      moreValues := affords_moreValues A
      control := affords_control A
      elseChain := affords_elseChain A
      directive := affords_directive A
      execArguments := affords_execArguments A
      moreExecArguments := affords_moreExecArguments A
      pipelineItems := affords_pipelineItems A }

/-- **A document that can be read at all** can be read with the budget that texts are read with. Each
statement leaves at least one token less for the others, which pays for it. -/
theorem document_of_gives {n : Nat} {ts : List Token} {ns : List Node} {d : Cursor}
    (hc : (ofTokens ts).Ended) (h : (document n).Gives (.ofTokens ts) ns d) :
    (document (budget ts)).Gives (.ofTokens ts) ns d := by
  have key : Affords 3 n document := by
    clear hc h
    induction n with
    | zero => exact fun _ h => absurd h (not_gives_exhausted _ _ _)
    | succ n ih =>
      apply Affords.succ
      intro c ns d hc h k hk
      have hcs := hc.skipSeparators
      have l₁ := c.length_skipSeparators_le
      refine (gives_document _ _ _ _).2 ?_
      rcases (gives_document _ _ _ _).1 h with h | ⟨hkind, first, e, others, hs, ho, rfl⟩
      · exact .inl h
      · have he := (forward n).statement hcs hs
        have l₂ := he.shorter
        exact .inr ⟨hkind, first, e, others, (afforded n).statement hcs hs k (by omega),
          ih he.ended ho k (by omega), rfl⟩
  exact key hc h _ (Nat.add_le_add_left (by decide) _)

end Rule

end BlockConfig
