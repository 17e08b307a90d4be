import BlockConfig.Node.Parser
import Mathlib.Tactic.ByContra

/-!
What a rule gives.

`r.Gives c a d` says that rule `r`, started at cursor `c`, ends with result `a` at cursor `d`. The
first half of this file says what the single steps of a rule give. The second half says the same of
the rules of the grammar, one statement for each rule, in terms of what the rules it calls give: all
ways in which the rule can succeed, with everything it looks at. The statements are equivalences, so
the same one serves to take a successful reading apart and to put one together, and nothing later
has to open a rule again.

A budget appears in them only as the step from `n + 1` to `n`; with the budget `0` every rule is
`exhausted`, which gives nothing. Rules with many ways to succeed get an inductive predicate with
one constructor for each way: `Operand`, `Statement`, `Named`, `Directive` and `PipelineItems`.
-/

set_option autoImplicit false

namespace BlockConfig

namespace Cursor

/-- The binary operator that comes next. -/
def operator? (c : Cursor) : Option BinaryOp :=
  if (c.peekAt 0).kind = .ident then
    if (c.peekAt 0).pos.line = c.line then BinaryOp.ofWord? (c.peekAt 0).literal else none
  else BinaryOp.ofKind? (c.peekAt 0).kind

/-- Past commas and semicolons. -/
def skipSeparators (c : Cursor) : Cursor :=
  skipKinds (fun k => k = .semicolon ∨ k = .comma) c.line c.rest

/-- Past comments. -/
def skipComments (c : Cursor) : Cursor :=
  skipKinds (· = .comment) c.line c.rest

end Cursor

namespace Rule

variable {α β : Type}

/-- A rule started at `c` ends with `a` at `d`. -/
def Gives (r : Rule α) (c : Cursor) (a : α) (d : Cursor) : Prop :=
  r c = .ok (a, d)

/-! ## 1. Single steps -/

/-- A sequence gives what the second rule gives, at the place and with the value that the first one has led
to. -/
theorem gives_bind (r : Rule α) (f : α → Rule β) (c : Cursor) (b : β) (d : Cursor) :
    (r >>= f).Gives c b d ↔ ∃ a e, r.Gives c a e ∧ (f a).Gives e b d := by
  simp only [Gives, bind, StateT.bind, Except.bind]
  cases h : r c with
  | error m => simp
  | ok x =>
    obtain ⟨a, e⟩ := x
    constructor
    · intro hf
      exact ⟨a, e, rfl, hf⟩
    · rintro ⟨a', e', he, hf⟩
      simp only [Except.ok.injEq, Prod.mk.injEq] at he
      obtain ⟨rfl, rfl⟩ := he
      exact hf

theorem gives_pure (a b : α) (c d : Cursor) :
    (pure a : Rule α).Gives c b d ↔ b = a ∧ d = c := by
  show (.ok (a, c) : Except (Misplaced SyntaxFault) (α × Cursor)) = .ok (b, d) ↔ _
  rw [Except.ok.injEq, Prod.mk.injEq]
  exact and_congr eq_comm eq_comm

/-- A choice between rules gives what the rule of its branch does. -/
theorem gives_ite (p : Prop) [Decidable p] (r s : Rule α) (c : Cursor) (a : α) (d : Cursor) :
    (if p then r else s).Gives c a d ↔ (p ∧ r.Gives c a d) ∨ (¬p ∧ s.Gives c a d) := by
  by_cases h : p <;> simp [h]

@[simp] theorem not_gives_fail (t : Token) (fault : SyntaxFault) (c : Cursor) (a : α)
    (d : Cursor) : ¬(fail t fault : Rule α).Gives c a d := by
  simp [Gives, fail]

theorem gives_peekAt (n : Nat) (c : Cursor) (t : Token) (d : Cursor) :
    (peekAt n).Gives c t d ↔ t = c.peekAt n ∧ d = c := by
  simp only [Gives, peekAt, Except.ok.injEq, Prod.mk.injEq]
  exact and_congr eq_comm eq_comm

theorem gives_peek (c : Cursor) (t : Token) (d : Cursor) :
    peek.Gives c t d ↔ t = c.peekAt 0 ∧ d = c :=
  gives_peekAt 0 c t d

theorem gives_advance (c : Cursor) (t : Token) (d : Cursor) :
    advance.Gives c t d ↔ t = c.peekAt 0 ∧ d = c.skip := by
  simp only [Gives, advance, Except.ok.injEq, Prod.mk.injEq]
  exact and_congr eq_comm eq_comm

theorem gives_get (c a d : Cursor) :
    (get : Rule Cursor).Gives c a d ↔ a = c ∧ d = c := by
  simp only [Gives, get, getThe, MonadStateOf.get, StateT.get, pure, Except.pure, Except.ok.injEq,
    Prod.mk.injEq]
  exact and_congr eq_comm eq_comm

theorem gives_get_bind (f : Cursor → Rule β) (c : Cursor) (b : β) (d : Cursor) :
    (get >>= f).Gives c b d ↔ (f c).Gives c b d :=
  Iff.rfl

theorem gives_set (s c : Cursor) (u : PUnit) (d : Cursor) :
    (set s : Rule PUnit).Gives c u d ↔ d = s := by
  show (.ok (u, s) : Except (Misplaced SyntaxFault) (PUnit × Cursor)) = .ok (u, d) ↔ _
  rw [Except.ok.injEq, Prod.mk.injEq, eq_self, true_and]
  exact eq_comm

/-- An optional token is passed if it is there. In either case the rule says which of the two happened, and
never fails. -/
theorem gives_eat (kind : Kind) (c : Cursor) (b : Bool) (d : Cursor) :
    (eat kind).Gives c b d ↔
      ((c.peekAt 0).kind = kind ∧ b = true ∧ d = c.skip) ∨
        ((c.peekAt 0).kind ≠ kind ∧ b = false ∧ d = c) := by
  by_cases h : (c.peekAt 0).kind = kind
  · simp [Gives, eat, h, eq_comm]
  · simp [Gives, eat, h, eq_comm]

/-- A token that must be there. The words of the fault do not matter when it is. -/
theorem gives_expect (kind : Kind) (context : String) (c : Cursor) (t : Token) (d : Cursor) :
    (expect kind context).Gives c t d ↔
      (c.peekAt 0).kind = kind ∧ t = c.peekAt 0 ∧ d = c.skip := by
  simp only [expect, gives_bind, gives_peek, gives_ite, gives_advance, not_gives_fail, and_false,
    or_false]
  constructor
  · rintro ⟨_, _, ⟨rfl, rfl⟩, hk, ht⟩
    exact ⟨hk, ht⟩
  · rintro ⟨hk, ht⟩
    exact ⟨_, _, ⟨rfl, rfl⟩, hk, ht⟩

/-- A name that must be there, as a word or as a text. -/
theorem gives_expectName (context : String) (c : Cursor) (t : Token) (d : Cursor) :
    (expectName context).Gives c t d ↔
      (c.peekAt 0).isName = true ∧ t = c.peekAt 0 ∧ d = c.skip := by
  simp only [expectName, gives_bind, gives_peek, gives_ite, gives_advance, not_gives_fail,
    and_false, or_false]
  constructor
  · rintro ⟨_, _, ⟨rfl, rfl⟩, hk, ht⟩
    exact ⟨hk, ht⟩
  · rintro ⟨hk, ht⟩
    exact ⟨_, _, ⟨rfl, rfl⟩, hk, ht⟩

/-- Passing separators reads as many of them as there are. -/
theorem gives_skipSeparators (c : Cursor) (u : Unit) (d : Cursor) :
    skipSeparators.Gives c u d ↔ d = c.skipSeparators := by
  simp only [Gives, skipSeparators, Except.ok.injEq, Prod.mk.injEq, true_and]
  exact eq_comm

theorem gives_skipComments (c : Cursor) (u : Unit) (d : Cursor) :
    skipComments.Gives c u d ↔ d = c.skipComments := by
  simp only [Gives, skipComments, Except.ok.injEq, Prod.mk.injEq, true_and]
  exact eq_comm

/-- Looking for an operator passes no token. -/
theorem gives_operator? (c : Cursor) (op : Option BinaryOp) (d : Cursor) :
    operator?.Gives c op d ↔ op = c.operator? ∧ d = c := by
  simp only [Gives, operator?, Except.ok.injEq, Prod.mk.injEq]
  exact and_congr eq_comm eq_comm

@[simp] theorem not_gives_exhausted (c : Cursor) (a : α) (d : Cursor) :
    ¬(exhausted : Rule α).Gives c a d := by
  rw [exhausted, gives_bind]
  simp

/-! ## 2. Expressions -/

/-- An expression is its condition alone, or a choice: condition, mark, expression, colon, expression. Both
values of a choice may be choices again, so it associates to the right. -/
theorem gives_expression (n : Nat) (c : Cursor) (t : Node) (d : Cursor) :
    (expression (n + 1)).Gives c t d ↔ ∃ condition e, (binary n 1).Gives c condition e ∧
      (((e.peekAt 0).kind ≠ .question ∧ t = condition ∧ d = e) ∨
        ((e.peekAt 0).kind = .question ∧ ∃ yes e₁ no, (expression n).Gives e.skip yes e₁ ∧
          (e₁.peekAt 0).kind = .colon ∧ (expression n).Gives e₁.skip no d ∧
          t = .ternary condition yes no)) := by
  simp only [expression, gives_bind, gives_ite, gives_eat, gives_expect, gives_pure]
  constructor
  · rintro ⟨condition, e, hc, b, e', ⟨hk, rfl, rfl⟩ | ⟨hk, rfl, rfl⟩, h⟩
    · obtain ⟨-, yes, e₁, hy, _, _, ⟨hk', rfl, rfl⟩, no, e₃, hn, rfl, rfl⟩ | ⟨h, -⟩ := h
      · exact ⟨condition, e, hc, .inr ⟨hk, yes, e₁, no, hy, hk', hn, rfl⟩⟩
      · exact absurd rfl h
    · obtain ⟨h, -⟩ | ⟨-, rfl, rfl⟩ := h
      · exact absurd h (by simp)
      · exact ⟨t, d, hc, .inl ⟨hk, rfl, rfl⟩⟩
  · rintro ⟨condition, e, hc, ⟨hk, rfl, rfl⟩ | ⟨hk, yes, e₁, no, hy, hk', hn, rfl⟩⟩
    · exact ⟨t, d, hc, false, d, .inr ⟨hk, rfl, rfl⟩, .inr ⟨by simp, rfl, rfl⟩⟩
    · exact ⟨condition, e, hc, true, e.skip, .inl ⟨hk, rfl, rfl⟩, .inl ⟨rfl, yes, e₁, hy, _, _,
        ⟨hk', rfl, rfl⟩, no, d, hn, rfl, rfl⟩⟩

/-- Operands and operators: the first operand, then the loop over what follows it. -/
theorem gives_binary (n least : Nat) (c : Cursor) (t : Node) (d : Cursor) :
    (binary (n + 1) least).Gives c t d ↔ ∃ left e, (unary n).Gives c left e ∧
      (climb n least left).Gives e t d := by
  rw [binary, gives_bind]

/-- The loop over operators stops at an operator that binds less than it should, or goes on with the left
operand extended. The right operand is read with a bound one higher, which makes operators of one strength
associate to the left. -/
theorem gives_climb (n least : Nat) (left : Node) (c : Cursor) (t : Node) (d : Cursor) :
    (climb (n + 1) least left).Gives c t d ↔
      ((∀ op ∈ c.operator?, op.strength < least) ∧ t = left ∧ d = c) ∨
        ∃ op right e, c.operator? = some op ∧ least ≤ op.strength ∧
          (binary n (op.strength + 1)).Gives c.skip right e ∧
          (climb n least (.binary op left right)).Gives e t d := by
  rw [climb, gives_bind]
  simp only [gives_operator?]
  cases h : c.operator? with
  | none =>
    constructor
    · rintro ⟨_, _, ⟨rfl, rfl⟩, hp⟩
      exact .inl ⟨by simp, (gives_pure _ _ _ _).1 hp⟩
    · rintro (⟨-, rfl, rfl⟩ | ⟨_, _, _, h', -⟩)
      · exact ⟨_, _, ⟨rfl, rfl⟩, (gives_pure _ _ _ _).2 ⟨rfl, rfl⟩⟩
      · exact absurd h' (by simp)
  | some op =>
    constructor
    · rintro ⟨_, _, ⟨rfl, rfl⟩, hp⟩
      rcases (gives_ite _ _ _ _ _ _).1 hp with ⟨hlt, hp⟩ | ⟨hlt, hp⟩
      · exact .inl ⟨by simpa using hlt, (gives_pure _ _ _ _).1 hp⟩
      · simp only [gives_bind, gives_advance] at hp
        obtain ⟨_, _, ⟨-, rfl⟩, right, e, hr, hl⟩ := hp
        exact .inr ⟨op, right, e, rfl, Nat.le_of_not_lt hlt, hr, hl⟩
    · rintro (⟨hlt, rfl, rfl⟩ | ⟨op', right, e, h', hle, hr, hl⟩)
      · refine ⟨_, _, ⟨rfl, rfl⟩, (gives_ite _ _ _ _ _ _).2 (.inl ⟨?_, ?_⟩)⟩
        · exact hlt op rfl
        · exact (gives_pure _ _ _ _).2 ⟨rfl, rfl⟩
      · obtain rfl := Option.some.inj h'
        refine ⟨_, _, ⟨rfl, rfl⟩, (gives_ite _ _ _ _ _ _).2 (.inr ⟨Nat.not_lt.2 hle, ?_⟩)⟩
        simp only [gives_bind, gives_advance]
        exact ⟨_, _, ⟨rfl, rfl⟩, right, e, hr, hl⟩

/-- A prefix operator with its operand, or an operand with its members. A prefix operator therefore applies
to the members as well. -/
theorem gives_unary (n : Nat) (c : Cursor) (t : Node) (d : Cursor) :
    (unary (n + 1)).Gives c t d ↔
      (∃ op operand, UnaryOp.ofKind? (c.peekAt 0).kind = some op ∧
        (unary n).Gives c.skip operand d ∧ t = .unary op operand) ∨
        (UnaryOp.ofKind? (c.peekAt 0).kind = none ∧ ∃ left e, (primary n).Gives c left e ∧
          (members n left).Gives e t d) := by
  rw [unary, gives_bind]
  simp only [gives_peek]
  cases h : UnaryOp.ofKind? (c.peekAt 0).kind with
  | none =>
    constructor
    · rintro ⟨_, _, ⟨rfl, rfl⟩, hp⟩
      simp only [h, gives_bind] at hp
      exact .inr ⟨rfl, hp⟩
    · rintro (⟨_, _, h', -⟩ | ⟨-, hp⟩)
      · exact absurd h' (by simp)
      · refine ⟨_, _, ⟨rfl, rfl⟩, ?_⟩
        simp only [h, gives_bind]
        exact hp
  | some op =>
    constructor
    · rintro ⟨_, _, ⟨rfl, rfl⟩, hp⟩
      simp only [h, gives_bind, gives_advance, gives_pure] at hp
      obtain ⟨_, _, ⟨-, rfl⟩, operand, e, hu, rfl, rfl⟩ := hp
      exact .inl ⟨op, operand, rfl, hu, rfl⟩
    · rintro (⟨op', operand, h', hu, rfl⟩ | ⟨h', -⟩)
      · obtain rfl := Option.some.inj h'
        refine ⟨_, _, ⟨rfl, rfl⟩, ?_⟩
        simp only [h, gives_bind, gives_advance, gives_pure]
        exact ⟨_, _, ⟨rfl, rfl⟩, operand, d, hu, rfl, rfl⟩
      · exact absurd h' (by simp)

/-- The loop over members. Each is a dot and a name, and any other token ends it. -/
theorem gives_members (n : Nat) (left : Node) (c : Cursor) (t : Node) (d : Cursor) :
    (members (n + 1) left).Gives c t d ↔
      ((c.peekAt 0).kind ≠ .dot ∧ t = left ∧ d = c) ∨
        ((c.peekAt 0).kind = .dot ∧ (c.skip.peekAt 0).isName = true ∧
          (members n (.member left (c.skip.peekAt 0).literal)).Gives c.skip.skip t d) := by
  simp only [members, gives_bind, gives_ite, gives_eat, gives_expectName, gives_pure]
  constructor
  · rintro ⟨b, e, ⟨hk, rfl, rfl⟩ | ⟨hk, rfl, rfl⟩, h⟩
    · obtain ⟨-, _, _, ⟨hn, rfl, rfl⟩, hm⟩ | ⟨h, -⟩ := h
      · exact .inr ⟨hk, hn, hm⟩
      · exact absurd rfl h
    · obtain ⟨h, -⟩ | ⟨-, rfl, rfl⟩ := h
      · exact absurd h (by simp)
      · exact .inl ⟨hk, rfl, rfl⟩
  · rintro (⟨hk, rfl, rfl⟩ | ⟨hk, hn, hm⟩)
    · exact ⟨false, d, .inr ⟨hk, rfl, rfl⟩, .inr ⟨by simp, rfl, rfl⟩⟩
    · exact ⟨true, c.skip, .inl ⟨hk, rfl, rfl⟩, .inl ⟨rfl, _, _, ⟨hn, rfl, rfl⟩, hm⟩⟩

/-- The ways in which an operand can be read, by the kind of its first token. -/
inductive Operand (n : Nat) (c : Cursor) : Node → Cursor → Prop
  | number {v : Literal} (hk : (c.peekAt 0).kind = .number)
      (hv : numberLiteral? (c.peekAt 0).literal = some v) : Operand n c (.literal v) c.skip
  | str (hk : (c.peekAt 0).kind = .str) :
      Operand n c (.literal (.str (c.peekAt 0).literal ((c.peekAt 0).quote.getD '"') none)) c.skip
  | heredoc (hk : (c.peekAt 0).kind = .heredoc) :
      Operand n c (.literal (.str (c.peekAt 0).literal '"' (c.peekAt 0).delimiter)) c.skip
  | bool (hk : (c.peekAt 0).kind = .bool) :
      Operand n c (.literal (.bool ((c.peekAt 0).literal = "true"))) c.skip
  | null (hk : (c.peekAt 0).kind = .ident) (hn : (c.peekAt 0).literal = "null") :
      Operand n c (.literal .null) c.skip
  | call {args : List Node} {d : Cursor} (hk : (c.peekAt 0).kind = .ident)
      (hn : (c.peekAt 0).literal ≠ "null") (hp : (c.skip.peekAt 0).kind = .lparen)
      (hl : (c.skip.peekAt 0).pos.line = (c.peekAt 0).pos.line)
      (ha : (items n .rparen "to close call arguments").Gives c.skip.skip args d) :
      Operand n c (.call (c.peekAt 0).literal args (c.peekAt 0).pos) d
  | ident (hk : (c.peekAt 0).kind = .ident) (hn : (c.peekAt 0).literal ≠ "null")
      (hp : ¬((c.skip.peekAt 0).kind = .lparen ∧
        (c.skip.peekAt 0).pos.line = (c.peekAt 0).pos.line)) :
      Operand n c (.ident (c.peekAt 0).literal) c.skip
  | envRef (hk : (c.peekAt 0).kind = .envRef) :
      Operand n c (envReference (c.peekAt 0).literal) c.skip
  | group {inner : Node} {e : Cursor} (hk : (c.peekAt 0).kind = .lparen)
      (hi : (expression n).Gives c.skip inner e) (hp : (e.peekAt 0).kind = .rparen) :
      Operand n c (.group inner) e.skip
  | list {elements : List Node} {d : Cursor} (hk : (c.peekAt 0).kind = .lbracket)
      (hi : (items n .rbracket "to close list").Gives c.skip elements d) :
      Operand n c (.list elements) d
  | entries {statements : List Node} {d : Cursor} (hk : (c.peekAt 0).kind = .lbrace)
      (hb : (body n "for map literal").Gives c statements d) :
      Operand n c (.ofEntries statements) d
  | directive {t : Node} {d : Cursor} (hk : (c.peekAt 0).kind = .atSign)
      (hd : (directive n).Gives c t d) : Operand n c t d

/-- An operand is one of the forms of `Operand`. Which of them it is can be seen from the first token,
except that a word is a call if a bracket follows it on the same line. The cases follow the branches of the
rule. -/
theorem gives_primary (n : Nat) (c : Cursor) (t : Node) (d : Cursor) :
    (primary (n + 1)).Gives c t d ↔ Operand n c t d := by
  rw [primary, gives_bind]
  simp only [gives_peek]
  constructor
  -- From the rule to the form: one branch for each kind of the first token.
  · rintro ⟨_, _, ⟨rfl, rfl⟩, h⟩
    split at h
    next hk =>
      simp only [gives_bind, gives_advance] at h
      obtain ⟨_, _, ⟨-, rfl⟩, h⟩ := h
      split at h
      next v hv =>
        obtain ⟨rfl, rfl⟩ := (gives_pure _ _ _ _).1 h
        exact .number hk hv
      next => exact absurd h (not_gives_fail _ _ _ _ _)
    next hk =>
      simp only [gives_bind, gives_advance, gives_pure] at h
      obtain ⟨_, _, ⟨-, rfl⟩, rfl, rfl⟩ := h
      exact .str hk
    next hk =>
      simp only [gives_bind, gives_advance, gives_pure] at h
      obtain ⟨_, _, ⟨-, rfl⟩, rfl, rfl⟩ := h
      exact .heredoc hk
    next hk =>
      simp only [gives_bind, gives_advance, gives_pure] at h
      obtain ⟨_, _, ⟨-, rfl⟩, rfl, rfl⟩ := h
      exact .bool hk
    next hk =>
      simp only [gives_bind, gives_advance, gives_ite, gives_pure, gives_peek, gives_expect] at h
      obtain ⟨_, _, ⟨-, rfl⟩, ⟨hn, rfl, rfl⟩ | ⟨hn, _, _, ⟨rfl, rfl⟩, h⟩⟩ := h
      · exact .null hk hn
      · obtain ⟨⟨hp, hl⟩, _, _, ⟨-, -, rfl⟩, args, e, ha, rfl, rfl⟩ | ⟨hp, rfl, rfl⟩ := h
        · exact .call hk hn hp hl ha
        · exact .ident hk hn hp
    next hk =>
      simp only [gives_bind, gives_advance, gives_pure] at h
      obtain ⟨_, _, ⟨-, rfl⟩, rfl, rfl⟩ := h
      exact .envRef hk
    next hk =>
      simp only [gives_bind, gives_advance, gives_expect, gives_pure] at h
      obtain ⟨_, _, ⟨-, rfl⟩, inner, e, hi, _, _, ⟨hp, -, rfl⟩, rfl, rfl⟩ := h
      exact .group hk hi hp
    next hk =>
      simp only [gives_bind, gives_expect, gives_pure] at h
      obtain ⟨_, _, ⟨-, -, rfl⟩, elements, e, hi, rfl, rfl⟩ := h
      exact .list hk hi
    next hk =>
      simp only [gives_bind, gives_pure] at h
      obtain ⟨statements, e, hb, rfl, rfl⟩ := h
      exact .entries hk hb
    next hk => exact .directive hk h
    next => exact absurd h (not_gives_fail _ _ _ _ _)
  -- From the form to the rule: the kind that the form asks for leads into its branch.
  · intro h
    refine ⟨_, _, ⟨rfl, rfl⟩, ?_⟩
    cases h with
    | number hk hv =>
      rw [hk]
      simp only [gives_bind, gives_advance]
      refine ⟨_, _, ⟨rfl, rfl⟩, ?_⟩
      rw [hv]
      exact (gives_pure _ _ _ _).2 ⟨rfl, rfl⟩
    | str hk | heredoc hk | bool hk | envRef hk =>
      rw [hk]
      simp only [gives_bind, gives_advance, gives_pure]
      exact ⟨_, _, ⟨rfl, rfl⟩, trivial, rfl⟩
    | null hk hn =>
      rw [hk]
      simp only [gives_bind, gives_advance, gives_ite, gives_pure]
      exact ⟨_, _, ⟨rfl, rfl⟩, .inl ⟨hn, trivial, rfl⟩⟩
    | call hk hn hp hl ha =>
      rw [hk]
      simp only [gives_bind, gives_advance, gives_ite, gives_pure, gives_peek, gives_expect]
      exact ⟨_, _, ⟨rfl, rfl⟩, .inr ⟨hn, _, _, ⟨rfl, rfl⟩, .inl ⟨⟨hp, hl⟩, _, _, ⟨hp, rfl, rfl⟩,
        _, _, ha, rfl, rfl⟩⟩⟩
    | ident hk hn hp =>
      rw [hk]
      simp only [gives_bind, gives_advance, gives_ite, gives_pure, gives_peek, gives_expect]
      exact ⟨_, _, ⟨rfl, rfl⟩, .inr ⟨hn, _, _, ⟨rfl, rfl⟩, .inr ⟨hp, trivial, rfl⟩⟩⟩
    | group hk hi hp =>
      rw [hk]
      simp only [gives_bind, gives_advance, gives_expect, gives_pure]
      exact ⟨_, _, ⟨rfl, rfl⟩, _, _, hi, _, _, ⟨hp, rfl, rfl⟩, rfl, rfl⟩
    | list hk hi =>
      rw [hk]
      simp only [gives_bind, gives_expect, gives_pure]
      exact ⟨_, _, ⟨hk, rfl, rfl⟩, _, _, hi, rfl, rfl⟩
    | entries hk hb =>
      rw [hk]
      simp only [gives_bind, gives_pure]
      exact ⟨_, _, hb, rfl, rfl⟩
    | directive hk hd =>
      rw [hk]
      exact hd

/-- Items between commas, up to a closing token. A comma may stand behind the last one, and comments in
front of each item and behind it. -/
theorem gives_items (n : Nat) (close : Kind) (context : String) (c : Cursor) (ts : List Node)
    (d : Cursor) :
    (items (n + 1) close context).Gives c ts d ↔
      ((c.skipComments.peekAt 0).kind = close ∧ ts = [] ∧ d = c.skipComments.skip) ∨
        ((c.skipComments.peekAt 0).kind ≠ close ∧ ∃ item e,
          (expression n).Gives c.skipComments item e ∧
          (((e.skipComments.peekAt 0).kind = .comma ∧ ∃ others,
              (items n close context).Gives e.skipComments.skip others d ∧ ts = item :: others) ∨
            ((e.skipComments.peekAt 0).kind ≠ .comma ∧ (e.skipComments.peekAt 0).kind = close ∧
              ts = [item] ∧ d = e.skipComments.skip))) := by
  simp only [items, gives_bind, gives_ite, gives_eat, gives_expect, gives_pure, gives_skipComments]
  constructor
  · rintro ⟨_, _, rfl, b, e, ⟨hk, rfl, rfl⟩ | ⟨hk, rfl, rfl⟩, h⟩
    · obtain ⟨-, rfl, rfl⟩ | ⟨h, -⟩ := h
      · exact .inl ⟨hk, rfl, rfl⟩
      · exact absurd rfl h
    · obtain ⟨h, -⟩ | ⟨-, item, e, hi, _, _, rfl, b, e', ⟨hc, rfl, rfl⟩ | ⟨hc, rfl, rfl⟩, h⟩ := h
      · exact absurd h (by simp)
      · obtain ⟨-, others, _, ho, rfl, rfl⟩ | ⟨h, -⟩ := h
        · exact .inr ⟨hk, item, e, hi, .inl ⟨hc, others, ho, rfl⟩⟩
        · exact absurd rfl h
      · obtain ⟨h, -⟩ | ⟨-, _, _, ⟨hk', rfl, rfl⟩, rfl, rfl⟩ := h
        · exact absurd h (by simp)
        · exact .inr ⟨hk, item, e, hi, .inr ⟨hc, hk', rfl, rfl⟩⟩
  · rintro (⟨hk, rfl, rfl⟩ | ⟨hk, item, e, hi, ⟨hc, others, ho, rfl⟩ | ⟨hc, hk', rfl, rfl⟩⟩)
    · exact ⟨(), _, rfl, true, _, .inl ⟨hk, rfl, rfl⟩, .inl ⟨rfl, rfl, rfl⟩⟩
    · exact ⟨(), _, rfl, false, _, .inr ⟨hk, rfl, rfl⟩, .inr ⟨by simp, item, e, hi, (), _, rfl,
        true, _, .inl ⟨hc, rfl, rfl⟩, .inl ⟨rfl, others, _, ho, rfl, rfl⟩⟩⟩
    · exact ⟨(), _, rfl, false, _, .inr ⟨hk, rfl, rfl⟩, .inr ⟨by simp, item, e, hi, (), _, rfl,
        false, _, .inr ⟨hc, rfl, rfl⟩, .inr ⟨by simp, _, _, ⟨hk', rfl, rfl⟩, rfl, rfl⟩⟩⟩

/-! ## 3. Statements -/

/-- Statements in braces, of which the opening one is read here. -/
theorem gives_body (n : Nat) (context : String) (c : Cursor) (ns : List Node) (d : Cursor) :
    (body (n + 1) context).Gives c ns d ↔
      (c.peekAt 0).kind = .lbrace ∧ (bodyItems n context).Gives c.skip ns d := by
  simp only [body, gives_bind, gives_expect]
  constructor
  · rintro ⟨_, _, ⟨hk, -, rfl⟩, h⟩
    exact ⟨hk, h⟩
  · rintro ⟨hk, h⟩
    exact ⟨_, _, ⟨hk, rfl, rfl⟩, h⟩

/-- Statements up to the closing brace, with separators between them. The end of input is no brace. -/
theorem gives_bodyItems (n : Nat) (context : String) (c : Cursor) (ns : List Node) (d : Cursor) :
    (bodyItems (n + 1) context).Gives c ns d ↔
      ((c.skipSeparators.peekAt 0).kind = .rbrace ∧ ns = [] ∧ d = c.skipSeparators.skip) ∨
        ((c.skipSeparators.peekAt 0).kind ≠ .rbrace ∧ (c.skipSeparators.peekAt 0).kind ≠ .eof ∧
          ∃ first e others, (statement n).Gives c.skipSeparators first e ∧
            (bodyItems n context).Gives e others d ∧ ns = first :: others) := by
  simp only [bodyItems, gives_bind, gives_ite, gives_eat, gives_peek, gives_pure,
    gives_skipSeparators, not_gives_fail]
  constructor
  · rintro ⟨_, _, rfl, b, e, ⟨hk, rfl, rfl⟩ | ⟨hk, rfl, rfl⟩, h⟩
    · obtain ⟨-, rfl, rfl⟩ | ⟨h, -⟩ := h
      · exact .inl ⟨hk, rfl, rfl⟩
      · exact absurd rfl h
    · obtain ⟨h, -⟩ | ⟨-, _, _, ⟨rfl, rfl⟩, ⟨-, h⟩ | ⟨he, first, e, hf, others, _, ho, rfl, rfl⟩⟩ := h
      · exact absurd h (by simp)
      · exact h.elim
      · exact .inr ⟨hk, he, first, e, others, hf, ho, rfl⟩
  · rintro (⟨hk, rfl, rfl⟩ | ⟨hk, he, first, e, others, hf, ho, rfl⟩)
    · exact ⟨(), _, rfl, true, _, .inl ⟨hk, rfl, rfl⟩, .inl ⟨rfl, rfl, rfl⟩⟩
    · exact ⟨(), _, rfl, false, _, .inr ⟨hk, rfl, rfl⟩, .inr ⟨by simp, _, _, ⟨rfl, rfl⟩,
        .inr ⟨he, first, e, hf, others, d, ho, rfl, rfl⟩⟩⟩

/-- The ways in which a statement can be read, by its first token. -/
inductive Statement (n : Nat) (c : Cursor) : Node → Cursor → Prop
  | comment (hk : (c.peekAt 0).kind = .comment) :
      Statement n c (.comment (c.peekAt 0).literal) c.skip
  | directive {t : Node} {d : Cursor} (hk : (c.peekAt 0).kind = .atSign)
      (hd : (directive n).Gives c t d) : Statement n c t d
  | control {branches : List (Branch Node)} {d : Cursor} (hk : (c.peekAt 0).kind = .ifWord)
      (hc : (control n).Gives c branches d) : Statement n c (.control branches) d
  | arrow {relation : Option Relation} {t : Node} {d : Cursor} (hk : (c.peekAt 0).isName = true)
      (ha : arrowAhead? c = some relation) (hr : (arrow n relation).Gives c t d) :
      Statement n c t d
  | named {t : Node} {d : Cursor} (hk : (c.peekAt 0).isName = true) (ha : arrowAhead? c = none)
      (hb : (blockOrAssignment n).Gives c t d) : Statement n c t d

/-- A statement that begins with a name is an arrow or not, as what is ahead tells. -/
theorem gives_named (n : Nat) (c : Cursor) (t : Node) (d : Cursor) :
    (do
      match arrowAhead? (← get) with
      | some relation => arrow n relation
      | none => blockOrAssignment n : Rule Node).Gives c t d ↔
      (∃ relation, arrowAhead? c = some relation ∧ (arrow n relation).Gives c t d) ∨
        (arrowAhead? c = none ∧ (blockOrAssignment n).Gives c t d) := by
  rw [gives_get_bind]
  cases arrowAhead? c <;> simp

/-- A statement is one of the forms of `Statement`. The rule looks at up to three tokens to tell them apart,
and so do the cases of this proof. -/
theorem gives_statement (n : Nat) (c : Cursor) (t : Node) (d : Cursor) :
    (statement (n + 1)).Gives c t d ↔ Statement n c t d := by
  rw [statement, gives_bind]
  simp only [gives_peek]
  have named := gives_named n c t d
  constructor
  · rintro ⟨_, _, ⟨rfl, rfl⟩, h⟩
    split at h
    next hk =>
      simp only [gives_bind, gives_advance, gives_pure] at h
      obtain ⟨_, _, ⟨-, rfl⟩, rfl, rfl⟩ := h
      exact .comment hk
    next hk => exact .directive hk h
    next hk =>
      simp only [gives_bind, gives_pure] at h
      obtain ⟨branches, e, hc, rfl, rfl⟩ := h
      exact .control hk hc
    next => exact absurd h (not_gives_fail _ _ _ _ _)
    next => exact absurd h (not_gives_fail _ _ _ _ _)
    next hk =>
      rcases named.1 h with ⟨relation, ha, hr⟩ | ⟨ha, hb⟩
      · exact .arrow (by simp [Token.isName, hk]) ha hr
      · exact .named (by simp [Token.isName, hk]) ha hb
    next hk =>
      rcases named.1 h with ⟨relation, ha, hr⟩ | ⟨ha, hb⟩
      · exact .arrow (by simp [Token.isName, hk]) ha hr
      · exact .named (by simp [Token.isName, hk]) ha hb
    next => exact absurd h (not_gives_fail _ _ _ _ _)
  · intro h
    refine ⟨_, _, ⟨rfl, rfl⟩, ?_⟩
    cases h with
    | comment hk =>
      rw [hk]
      simp only [gives_bind, gives_advance, gives_pure]
      exact ⟨_, _, ⟨rfl, rfl⟩, trivial, rfl⟩
    | directive hk hd =>
      rw [hk]
      exact hd
    | control hk hc =>
      rw [hk]
      simp only [gives_bind, gives_pure]
      exact ⟨_, _, hc, rfl, rfl⟩
    | arrow hk ha hr =>
      have h := named.2 (.inl ⟨_, ha, hr⟩)
      rcases Token.isName_iff.1 hk with hk | hk <;> (rw [hk]; exact h)
    | named hk ha hb =>
      have h := named.2 (.inr ⟨ha, hb⟩)
      rcases Token.isName_iff.1 hk with hk | hk <;> (rw [hk]; exact h)

/-- An arrow: perhaps a relation, a name, the sign, a name, and properties if a brace follows. Each of the
two names may be written as a text. -/
theorem gives_arrow (n : Nat) (relation : Option Relation) (c : Cursor) (t : Node) (d : Cursor) :
    (arrow (n + 1) relation).Gives c t d ↔
      ∃ e, e = (if relation.isSome then c.skip else c) ∧
        (e.peekAt 0).isName = true ∧ (e.skip.peekAt 0).kind = .arrow ∧
        (e.skip.skip.peekAt 0).isName = true ∧ ∃ properties,
          (((e.skip.skip.skip.peekAt 0).kind = .lbrace ∧
              (body n "for arrow properties").Gives e.skip.skip.skip properties d) ∨
            ((e.skip.skip.skip.peekAt 0).kind ≠ .lbrace ∧ properties = [] ∧
              d = e.skip.skip.skip)) ∧
          t = .arrow relation (e.peekAt 0).literal (e.skip.skip.peekAt 0).literal properties
            (c.peekAt 0).pos := by
  -- Behind the relation, if there is one, the rule is the same for all arrows.
  have tail : ∀ (first : Token) (e : Cursor), (do
      let source ← expectName "as arrow source"
      let _ ← expect .arrow "in arrow"
      let target ← expectName "as arrow target"
      let properties ←
        if (← peek).kind = Kind.lbrace then body n "for arrow properties" else pure []
      return Node.arrow relation source.literal target.literal properties first.pos).Gives e t d ↔
        (e.peekAt 0).isName = true ∧ (e.skip.peekAt 0).kind = .arrow ∧
        (e.skip.skip.peekAt 0).isName = true ∧ ∃ properties,
          (((e.skip.skip.skip.peekAt 0).kind = .lbrace ∧
              (body n "for arrow properties").Gives e.skip.skip.skip properties d) ∨
            ((e.skip.skip.skip.peekAt 0).kind ≠ .lbrace ∧ properties = [] ∧
              d = e.skip.skip.skip)) ∧
          t = .arrow relation (e.peekAt 0).literal (e.skip.skip.peekAt 0).literal properties
            first.pos := by
    intro first e
    simp only [gives_bind, gives_ite, gives_expect, gives_expectName, gives_peek, gives_pure]
    constructor
    · rintro ⟨_, _, ⟨hs, rfl, rfl⟩, _, _, ⟨ha, rfl, rfl⟩, _, _, ⟨ht, rfl, rfl⟩, _, _, ⟨rfl, rfl⟩,
        ⟨hk, properties, _, hp, rfl, rfl⟩ | ⟨hk, _, _, ⟨rfl, rfl⟩, rfl, rfl⟩⟩
      · exact ⟨hs, ha, ht, properties, .inl ⟨hk, hp⟩, rfl⟩
      · exact ⟨hs, ha, ht, [], .inr ⟨hk, rfl, rfl⟩, rfl⟩
    · rintro ⟨hs, ha, ht, properties, ⟨hk, hp⟩ | ⟨hk, rfl, rfl⟩, rfl⟩
      · exact ⟨_, _, ⟨hs, rfl, rfl⟩, _, _, ⟨ha, rfl, rfl⟩, _, _, ⟨ht, rfl, rfl⟩, _, _, ⟨rfl, rfl⟩,
          .inl ⟨hk, properties, d, hp, rfl, rfl⟩⟩
      · exact ⟨_, _, ⟨hs, rfl, rfl⟩, _, _, ⟨ha, rfl, rfl⟩, _, _, ⟨ht, rfl, rfl⟩, _, _, ⟨rfl, rfl⟩,
          .inr ⟨hk, [], _, ⟨rfl, rfl⟩, rfl, rfl⟩⟩
  rw [arrow, gives_bind]
  simp only [gives_peek]
  cases relation with
  | none =>
    constructor
    · rintro ⟨_, _, ⟨rfl, rfl⟩, h⟩
      exact ⟨_, rfl, (tail _ _).1 h⟩
    · rintro ⟨_, rfl, h⟩
      exact ⟨_, _, ⟨rfl, rfl⟩, (tail _ _).2 h⟩
  | some r =>
    constructor
    · rintro ⟨_, _, ⟨rfl, rfl⟩, h⟩
      exact ⟨_, rfl, (tail _ _).1 h⟩
    · rintro ⟨_, rfl, h⟩
      exact ⟨_, _, ⟨rfl, rfl⟩, (tail _ _).2 h⟩

/-- The ways in which a statement that begins with a name and is no arrow can be read. -/
inductive Named (n : Nat) (c : Cursor) : Node → Cursor → Prop
  | block {statements : List Node} {d : Cursor} (hn : (c.peekAt 1).kind = .lbrace)
      (hb : (body n "for block body").Gives c.skip statements d) :
      Named n c (.ofBlock (c.peekAt 0).literal none statements (c.peekAt 0).pos) d
  | labelled {statements : List Node} {d : Cursor} (hn : (c.peekAt 1).isName = true)
      (hl : (c.peekAt 1).pos.line = (c.peekAt 0).pos.line) (h2 : (c.peekAt 2).kind = .lbrace)
      (hb : (body n "for block body").Gives c.skip.skip statements d) :
      Named n c (.ofBlock (c.peekAt 0).literal (some (c.peekAt 1).literal) statements
        (c.peekAt 0).pos) d
  | assign {value : Node} {d : Cursor}
      (hn : (c.peekAt 1).kind = .assign ∨ (c.peekAt 1).kind = .colon)
      (hv : (expression n).Gives c.skip.skip value d) :
      Named n c (.assign ⟨(c.peekAt 0).literal, (c.peekAt 0).pos⟩ value
        (if (c.peekAt 1).kind = .colon then .colon else .equals)) d
  | assignEach {targets : List Target} {sign : Token} {rest : List Token} {first : Node}
      {others : List Node} {e d : Cursor} (hk : (c.peekAt 0).kind = .ident)
      (hn : (c.peekAt 1).kind = .comma) (ht : targetList? c.rest = some (targets, sign, rest))
      (hf : (expression n).Gives ⟨sign.pos.line, rest⟩ first e)
      (ho : (moreValues n (targets.length - 1)).Gives e others d)
      (hl : others.length + 1 = targets.length) :
      Named n c (.assignEach (targets.zip (first :: others))) d
  | destructure {targets : List Target} {sign : Token} {rest : List Token} {first : Node}
      {e d : Cursor} (hk : (c.peekAt 0).kind = .ident)
      (hn : (c.peekAt 1).kind = .comma) (ht : targetList? c.rest = some (targets, sign, rest))
      (hf : (expression n).Gives ⟨sign.pos.line, rest⟩ first e)
      (ho : (moreValues n (targets.length - 1)).Gives e [] d) (hl : 1 ≠ targets.length) :
      Named n c (.destructure targets first) d
  | flag (hk : (c.peekAt 0).kind = .ident) (hb : (c.peekAt 1).kind ≠ .lbrace)
      (hl : ¬((c.peekAt 1).isName = true ∧ (c.peekAt 1).pos.line = (c.peekAt 0).pos.line ∧
        (c.peekAt 2).kind = .lbrace))
      (ha : ¬((c.peekAt 1).kind = .assign ∨ (c.peekAt 1).kind = .colon))
      (ht : targetList? c.rest = none) :
      Named n c (.assign ⟨(c.peekAt 0).literal, (c.peekAt 0).pos⟩ (.literal (.bool true)) .flag)
        c.skip

/-- A target list that does not end at once goes on with a comma. -/
theorem comma_of_targetList? {c : Cursor} {targets : List Target} {sign : Token}
    {rest : List Token} (h : targetList? c.rest = some (targets, sign, rest))
    (ha : (c.peekAt 1).kind ≠ .assign) : (c.peekAt 1).kind = .comma := by
  obtain ⟨line, ts⟩ := c
  match ts with
  | [] | [_] => simp [targetList?] at h
  | t :: u :: ts =>
    have hu : (Cursor.mk line (t :: u :: ts)).peekAt 1 = u := rfl
    rw [hu] at ha ⊢
    by_contra hc
    simp [targetList?, hc, ha] at h

/-- Behind the equals sign of several targets: a value for each, or one value for all. -/
theorem gives_assignSeveral (n : Nat) (targets : List Target) (sign : Token) (rest : List Token)
    (c : Cursor) (t : Node) (d : Cursor) :
    (do
      set (Cursor.mk sign.pos.line rest)
      let first ← expression n
      let values := first :: (← moreValues n (targets.length - 1))
      if values.length = targets.length then
        return Node.assignEach (targets.zip values)
      else if values.length = 1 then
        return Node.destructure targets first
      else
        fail sign (.targetCount targets.length values.length) : Rule Node).Gives c t d ↔
      ∃ first e others, (expression n).Gives ⟨sign.pos.line, rest⟩ first e ∧
        (moreValues n (targets.length - 1)).Gives e others d ∧
        ((others.length + 1 = targets.length ∧ t = .assignEach (targets.zip (first :: others))) ∨
          (1 ≠ targets.length ∧ others = [] ∧ t = .destructure targets first)) := by
  simp only [gives_bind, gives_ite, gives_set, gives_pure, not_gives_fail, and_false, or_false,
    List.length_cons]
  constructor
  · rintro ⟨_, _, rfl, first, e, hf, others, _, ho, ⟨hl, rfl, rfl⟩ | ⟨hl, h1, rfl, rfl⟩⟩
    · exact ⟨first, e, others, hf, ho, .inl ⟨hl, rfl⟩⟩
    · obtain rfl := List.length_eq_zero_iff.1 (Nat.succ.inj h1)
      exact ⟨first, e, [], hf, ho, .inr ⟨hl, rfl, rfl⟩⟩
  · rintro ⟨first, e, others, hf, ho, ⟨hl, rfl⟩ | ⟨hl, rfl, rfl⟩⟩
    · exact ⟨⟨⟩, _, rfl, first, e, hf, others, d, ho, .inl ⟨hl, rfl, rfl⟩⟩
    · exact ⟨⟨⟩, _, rfl, first, e, hf, [], d, ho, .inr ⟨hl, rfl, rfl, rfl⟩⟩

/-- What begins with a name is one of the forms of `Named`. The tokens behind the name decide: a comma where
targets are ahead, a brace, a label and a brace, an equals sign or a colon; with none of these it is a
flag. -/
theorem gives_blockOrAssignment (n : Nat) (c : Cursor) (t : Node) (d : Cursor) :
    (blockOrAssignment (n + 1)).Gives c t d ↔ Named n c t d := by
  simp only [blockOrAssignment, gives_bind, gives_ite, gives_peek, gives_peekAt, gives_advance,
    gives_pure, gives_get, not_gives_fail, and_false, or_false]
  constructor
  · rintro ⟨_, _, ⟨rfl, rfl⟩, _, _, ⟨rfl, rfl⟩, h⟩
    rcases h with ⟨hn, _, _, ⟨rfl, rfl⟩, statements, _, hb, rfl, rfl⟩ | ⟨hn, _, _, ⟨rfl, rfl⟩, h⟩
    · exact .block hn hb
    rcases h with ⟨⟨hn, hl, h2⟩, _, _, ⟨rfl, rfl⟩, _, _, ⟨rfl, rfl⟩, statements, _, hb, rfl, rfl⟩ |
      ⟨hl, h⟩
    · exact .labelled hn hl h2 hb
    rcases h with ⟨ha, _, _, ⟨rfl, rfl⟩, _, _, ⟨rfl, rfl⟩, value, _, hv, rfl, rfl⟩ |
      ⟨ha, hk, _, _, ⟨rfl, rfl⟩, h⟩
    · exact .assign ha hv
    -- Neither a brace nor a label nor a sign follows, so targets are looked for.
    split at h
    next targets sign rest ht =>
      have hc := comma_of_targetList? ht fun hs => ha (.inl hs)
      obtain ⟨first, e, others, hf, ho, ⟨hl, rfl⟩ | ⟨hl, rfl, rfl⟩⟩ :=
        (gives_assignSeveral _ _ _ _ _ _ _).1 h
      · exact .assignEach hk hc ht hf ho hl
      · exact .destructure hk hc ht hf ho hl
    next ht =>
      simp only [gives_bind, gives_advance, gives_pure] at h
      obtain ⟨_, _, ⟨-, rfl⟩, rfl, rfl⟩ := h
      exact .flag hk hn hl ha ht
  · intro h
    refine ⟨_, _, ⟨rfl, rfl⟩, _, _, ⟨rfl, rfl⟩, ?_⟩
    cases h with
    | block hn hb => exact .inl ⟨hn, _, _, ⟨rfl, rfl⟩, _, _, hb, rfl, rfl⟩
    | labelled hn hl h2 hb =>
      refine .inr ⟨?_, _, _, ⟨rfl, rfl⟩, .inl ⟨⟨hn, hl, h2⟩, _, _, ⟨rfl, rfl⟩, _, _, ⟨rfl, rfl⟩,
        _, _, hb, rfl, rfl⟩⟩
      intro hb
      simp [Token.isName, hb] at hn
    | assign hn hv =>
      refine .inr ⟨?_, _, _, ⟨rfl, rfl⟩, .inr ⟨?_, .inl ⟨hn, _, _, ⟨rfl, rfl⟩, _, _, ⟨rfl, rfl⟩,
        _, _, hv, rfl, rfl⟩⟩⟩
      · rcases hn with hn | hn <;> simp [hn]
      · rcases hn with hn | hn <;> simp [Token.isName, hn]
    | assignEach hk hn ht hf ho hl =>
      refine .inr ⟨by simp [hn], _, _, ⟨rfl, rfl⟩, .inr ⟨by simp [Token.isName, hn],
        .inr ⟨by simp [hn], hk, _, _, ⟨rfl, rfl⟩, ?_⟩⟩⟩
      rw [ht]
      exact (gives_assignSeveral _ _ _ _ _ _ _).2 ⟨_, _, _, hf, ho, .inl ⟨hl, rfl⟩⟩
    | destructure hk hn ht hf ho hl =>
      refine .inr ⟨by simp [hn], _, _, ⟨rfl, rfl⟩, .inr ⟨by simp [Token.isName, hn],
        .inr ⟨by simp [hn], hk, _, _, ⟨rfl, rfl⟩, ?_⟩⟩⟩
      rw [ht]
      exact (gives_assignSeveral _ _ _ _ _ _ _).2 ⟨_, _, _, hf, ho, .inr ⟨hl, rfl, rfl⟩⟩
    | flag hk hb hl ha ht =>
      refine .inr ⟨hb, _, _, ⟨rfl, rfl⟩, .inr ⟨hl, .inr ⟨ha, hk, _, _, ⟨rfl, rfl⟩, ?_⟩⟩⟩
      rw [ht]
      simp only [gives_bind, gives_advance, gives_pure]
      exact ⟨_, _, ⟨rfl, rfl⟩, trivial, rfl⟩

/-- No more values are read than there are targets. -/
theorem gives_moreValues_zero (n : Nat) (c : Cursor) (ns : List Node) (d : Cursor) :
    (moreValues (n + 1) 0).Gives c ns d ↔ ns = [] ∧ d = c := by
  rw [moreValues, gives_pure]

/-- More values, each behind a comma, as long as some target has none. -/
theorem gives_moreValues (n limit : Nat) (c : Cursor) (ns : List Node) (d : Cursor) :
    (moreValues (n + 1) (limit + 1)).Gives c ns d ↔
      ((c.peekAt 0).kind ≠ .comma ∧ ns = [] ∧ d = c) ∨
        ((c.peekAt 0).kind = .comma ∧ ∃ value e others, (expression n).Gives c.skip value e ∧
          (moreValues n limit).Gives e others d ∧ ns = value :: others) := by
  simp only [moreValues, gives_bind, gives_ite, gives_eat, gives_pure]
  constructor
  · rintro ⟨_, _, ⟨hk, rfl, rfl⟩ | ⟨hk, rfl, rfl⟩, h⟩
    · obtain ⟨-, value, e, hv, others, _, ho, rfl, rfl⟩ | ⟨h, -⟩ := h
      · exact .inr ⟨hk, value, e, others, hv, ho, rfl⟩
      · exact absurd rfl h
    · obtain ⟨h, -⟩ | ⟨-, rfl, rfl⟩ := h
      · exact absurd h (by simp)
      · exact .inl ⟨hk, rfl, rfl⟩
  · rintro (⟨hk, rfl, rfl⟩ | ⟨hk, value, e, others, hv, ho, rfl⟩)
    · exact ⟨false, _, .inr ⟨hk, rfl, rfl⟩, .inr ⟨by simp, rfl, rfl⟩⟩
    · exact ⟨true, _, .inl ⟨hk, rfl, rfl⟩, .inl ⟨rfl, value, e, hv, others, d, ho, rfl, rfl⟩⟩

/-- Without a comma there are no more values, however many there may be. -/
theorem moreValues_of_not_comma {n limit : Nat} {c : Cursor} (h : (c.peekAt 0).kind ≠ .comma) :
    (moreValues (n + 1) limit).Gives c [] c := by
  cases limit with
  | zero => exact (gives_moreValues_zero n c [] c).2 ⟨rfl, rfl⟩
  | succ limit => exact (gives_moreValues n limit c [] c).2 (.inl ⟨h, rfl, rfl⟩)

/-- A link with a condition, and the links behind it. -/
theorem gives_control (n : Nat) (c : Cursor) (bs : List (Branch Node)) (d : Cursor) :
    (control (n + 1)).Gives c bs d ↔ ∃ condition e statements e₁ others,
      (expression n).Gives c.skip condition e ∧ (body n "for IF body").Gives e statements e₁ ∧
        (elseChain n).Gives e₁ others d ∧
        bs = ⟨some (ungroup condition), statements, (c.peekAt 0).pos⟩ :: others := by
  simp only [control, gives_bind, gives_advance, gives_pure]
  constructor
  · rintro ⟨_, _, ⟨rfl, rfl⟩, condition, e, hc, statements, e₁, hb, others, _, ho, rfl, rfl⟩
    exact ⟨condition, e, statements, e₁, others, hc, hb, ho, rfl⟩
  · rintro ⟨condition, e, statements, e₁, others, hc, hb, ho, rfl⟩
    exact ⟨_, _, ⟨rfl, rfl⟩, condition, e, hc, statements, e₁, hb, others, d, ho, rfl, rfl⟩

/-- The links behind a condition. There may be none; there may be a further condition, in either spelling;
or the link without a condition, which is the last. -/
theorem gives_elseChain (n : Nat) (c : Cursor) (bs : List (Branch Node)) (d : Cursor) :
    (elseChain (n + 1)).Gives c bs d ↔
      (elseAhead c = false ∧ bs = [] ∧ d = c) ∨
        (elseAhead c = true ∧
          (((c.skipComments.peekAt 0).kind = .elseIfWord ∧
              (control n).Gives c.skipComments bs d) ∨
            ((c.skipComments.peekAt 0).kind ≠ .elseIfWord ∧
              (((c.skipComments.peekAt 1).kind = .ifWord ∧
                  (control n).Gives c.skipComments.skip bs d) ∨
                ((c.skipComments.peekAt 1).kind ≠ .ifWord ∧ ∃ statements,
                  (body n "for ELSE body").Gives c.skipComments.skip statements d ∧
                  bs = [⟨none, statements, (c.skipComments.peekAt 0).pos⟩]))))) := by
  simp only [elseChain, gives_bind, gives_ite, gives_get, gives_skipComments, gives_peek,
    gives_peekAt, gives_advance, gives_pure]
  constructor
  · rintro ⟨_, _, ⟨rfl, rfl⟩, ⟨ha, _, _, rfl, _, _, ⟨rfl, rfl⟩, h⟩ | ⟨ha, rfl, rfl⟩⟩
    · refine .inr ⟨ha, ?_⟩
      rcases h with h | ⟨hk, _, _, ⟨rfl, rfl⟩, ⟨hi, _, _, ⟨rfl, rfl⟩, h⟩ | ⟨hi, _, _, ⟨rfl, rfl⟩,
        statements, _, hb, rfl, rfl⟩⟩
      · exact .inl h
      · exact .inr ⟨hk, .inl ⟨hi, h⟩⟩
      · exact .inr ⟨hk, .inr ⟨hi, statements, hb, rfl⟩⟩
    · exact .inl ⟨by simpa using ha, rfl, rfl⟩
  · rintro (⟨ha, rfl, rfl⟩ | ⟨ha, h⟩)
    · exact ⟨_, _, ⟨rfl, rfl⟩, .inr ⟨by simp [ha], rfl, rfl⟩⟩
    · refine ⟨_, _, ⟨rfl, rfl⟩, .inl ⟨ha, (), _, rfl, _, _, ⟨rfl, rfl⟩, ?_⟩⟩
      rcases h with h | ⟨hk, ⟨hi, h⟩ | ⟨hi, statements, hb, rfl⟩⟩
      · exact .inl h
      · exact .inr ⟨hk, _, _, ⟨rfl, rfl⟩, .inl ⟨hi, _, _, ⟨rfl, rfl⟩, h⟩⟩
      · exact .inr ⟨hk, _, _, ⟨rfl, rfl⟩, .inr ⟨hi, _, _, ⟨rfl, rfl⟩, statements, d, hb, rfl, rfl⟩⟩

/-! ## 4. Directives -/

/-- The ways in which a directive can be read, by the name behind its sign. -/
inductive Directive (n : Nat) (c : Cursor) : Node → Cursor → Prop
  | inclusion {target : Node} {d : Cursor} (hn : (c.skip.peekAt 0).literal = "include")
      (ht : (expression n).Gives c.skip.skip target d) :
      Directive n c (.inclusion target (c.peekAt 0).pos) d
  | exec {t : Node} {d : Cursor} (hn : (c.skip.peekAt 0).literal = "exec")
      (hp : (c.skip.skip.peekAt 0).kind = .lparen)
      (ha : (execArguments n (c.peekAt 0) none none none).Gives c.skip.skip.skip t d) :
      Directive n c t d
  | pipeline {statements : List Node} {d : Cursor} (hn : (c.skip.peekAt 0).literal = "pipeline")
      (hb : (c.skip.skip.peekAt 0).kind = .lbrace)
      (hi : (pipelineItems n).Gives c.skip.skip.skip statements d) :
      Directive n c (.pipeline statements (c.peekAt 0).pos) d

/-- A directive is its sign, a name and what that name asks for. -/
theorem gives_directive (n : Nat) (c : Cursor) (t : Node) (d : Cursor) :
    (directive (n + 1)).Gives c t d ↔
      (c.peekAt 0).kind = .atSign ∧ (c.skip.peekAt 0).kind = .ident ∧ Directive n c t d := by
  simp only [directive, gives_bind, gives_ite, gives_expect, gives_pure, not_gives_fail, and_false,
    or_false]
  constructor
  · rintro ⟨_, _, ⟨hs, rfl, rfl⟩, _, _, ⟨hk, rfl, rfl⟩, h⟩
    refine ⟨hs, hk, ?_⟩
    rcases h with ⟨hn, target, _, ht, rfl, rfl⟩ | ⟨-, h⟩
    · exact .inclusion hn ht
    · rcases h with ⟨hn, _, _, ⟨hp, rfl, rfl⟩, ha⟩ | ⟨-, hn, _, _, ⟨hb, rfl, rfl⟩, statements, _, hi,
        rfl, rfl⟩
      · exact .exec hn hp ha
      · exact .pipeline hn hb hi
  · rintro ⟨hs, hk, h⟩
    refine ⟨_, _, ⟨hs, rfl, rfl⟩, _, _, ⟨hk, rfl, rfl⟩, ?_⟩
    cases h with
    | inclusion hn ht => exact .inl ⟨hn, _, _, ht, rfl, rfl⟩
    | exec hn hp ha => exact .inr ⟨by simp [hn], .inl ⟨hn, _, _, ⟨hp, rfl, rfl⟩, ha⟩⟩
    | pipeline hn hb hi =>
      exact .inr ⟨by simp [hn], .inr ⟨by simp [hn], hn, _, _, ⟨hb, rfl, rfl⟩, _, _, hi, rfl, rfl⟩⟩

/-- An execution needs its command. Without one the rule fails, whatever else was given. -/
theorem gives_execNode (sign : Token) (cmd args dir : Option Node) (c : Cursor) (t : Node)
    (d : Cursor) :
    (execNode sign cmd args dir).Gives c t d ↔
      ∃ program, cmd = some program ∧ t = .exec program args dir sign.pos ∧ d = c := by
  cases cmd with
  | none => simp [execNode]
  | some program => simp [execNode, gives_pure]

/-- The arguments of an execution, each a name, an equals sign and an expression. One that is given again
replaces the earlier one, as the tree has one place for each. -/
theorem gives_execArguments (n : Nat) (sign : Token) (cmd args dir : Option Node) (c : Cursor)
    (t : Node) (d : Cursor) :
    (execArguments (n + 1) sign cmd args dir).Gives c t d ↔
      ((c.skipComments.peekAt 0).kind = .rparen ∧
          (execNode sign cmd args dir).Gives c.skipComments.skip t d) ∨
        ((c.skipComments.peekAt 0).kind = .ident ∧
          (c.skipComments.skip.peekAt 0).kind = .assign ∧ ∃ value e,
            (expression n).Gives c.skipComments.skip.skip value e ∧
            (((c.skipComments.peekAt 0).literal = "cmd" ∧
                (moreExecArguments n sign (some value) args dir).Gives e t d) ∨
              ((c.skipComments.peekAt 0).literal = "args" ∧
                (moreExecArguments n sign cmd (some value) dir).Gives e t d) ∨
              ((c.skipComments.peekAt 0).literal = "dir" ∧
                (moreExecArguments n sign cmd args (some value)).Gives e t d))) := by
  simp only [execArguments, gives_bind, gives_ite, gives_eat, gives_expect, gives_skipComments,
    not_gives_fail, and_false, or_false]
  constructor
  · rintro ⟨_, _, rfl, _, _, ⟨hk, rfl, rfl⟩ | ⟨hk, rfl, rfl⟩, h⟩
    · obtain ⟨-, h⟩ | ⟨h, -⟩ := h
      · exact .inl ⟨hk, h⟩
      · exact absurd rfl h
    · obtain ⟨h, -⟩ | ⟨-, _, _, ⟨hi, rfl, rfl⟩, _, _, ⟨ha, rfl, rfl⟩, value, e, hv, h⟩ := h
      · exact absurd h (by simp)
      · refine .inr ⟨hi, ha, value, e, hv, ?_⟩
        rcases h with h | ⟨-, h | ⟨-, h⟩⟩
        · exact .inl h
        · exact .inr (.inl h)
        · exact .inr (.inr h)
  · rintro (⟨hk, h⟩ | ⟨hi, ha, value, e, hv, h⟩)
    · exact ⟨(), _, rfl, true, _, .inl ⟨hk, rfl, rfl⟩, .inl ⟨rfl, h⟩⟩
    · refine ⟨(), _, rfl, false, _, .inr ⟨by simp [hi], rfl, rfl⟩, .inr ⟨by simp, _, _,
        ⟨hi, rfl, rfl⟩, _, _, ⟨ha, rfl, rfl⟩, value, e, hv, ?_⟩⟩
      rcases h with h | ⟨hn, h⟩ | ⟨hn, h⟩
      · exact .inl h
      · exact .inr ⟨by simp [hn], .inl ⟨hn, h⟩⟩
      · exact .inr ⟨by simp [hn], .inr ⟨by simp [hn], hn, h⟩⟩

/-- Behind an argument: a comma and further arguments, or the end. -/
theorem gives_moreExecArguments (n : Nat) (sign : Token) (cmd args dir : Option Node) (c : Cursor)
    (t : Node) (d : Cursor) :
    (moreExecArguments (n + 1) sign cmd args dir).Gives c t d ↔
      ((c.skipComments.peekAt 0).kind = .comma ∧
          (execArguments n sign cmd args dir).Gives c.skipComments.skip t d) ∨
        ((c.skipComments.peekAt 0).kind = .rparen ∧
          (execNode sign cmd args dir).Gives c.skipComments.skip t d) := by
  simp only [moreExecArguments, gives_bind, gives_ite, gives_eat, gives_expect, gives_skipComments]
  constructor
  · rintro ⟨_, _, rfl, _, _, ⟨hk, rfl, rfl⟩ | ⟨hk, rfl, rfl⟩, h⟩
    · obtain ⟨-, h⟩ | ⟨h, -⟩ := h
      · exact .inl ⟨hk, h⟩
      · exact absurd rfl h
    · obtain ⟨h, -⟩ | ⟨-, _, _, ⟨hp, rfl, rfl⟩, h⟩ := h
      · exact absurd h (by simp)
      · exact .inr ⟨hp, h⟩
  · rintro (⟨hk, h⟩ | ⟨hp, h⟩)
    · exact ⟨(), _, rfl, true, _, .inl ⟨hk, rfl, rfl⟩, .inl ⟨rfl, h⟩⟩
    · exact ⟨(), _, rfl, false, _, .inr ⟨by simp [hp], rfl, rfl⟩, .inr ⟨by simp, _, _,
        ⟨hp, rfl, rfl⟩, h⟩⟩

/-- The ways in which the rest of a pipeline can be read, by the token that comes next. -/
inductive PipelineItems (n : Nat) (c : Cursor) : List Node → Cursor → Prop
  | close (hk : (c.peekAt 0).kind = .rbrace) : PipelineItems n c [] c.skip
  | comment {others : List Node} {d : Cursor} (hk : (c.peekAt 0).kind = .comment)
      (ho : (pipelineItems n).Gives c.skip others d) :
      PipelineItems n c (.comment (c.peekAt 0).literal :: others) d
  | arrow {relation : Option Relation} {first : Node} {others : List Node} {e d : Cursor}
      (hk : (c.peekAt 0).isName = true) (ha : arrowAhead? c = some relation)
      (hf : (arrow n relation).Gives c first e) (ho : (pipelineItems n).Gives e others d) :
      PipelineItems n c (first :: others) d
  | step {first : Node} {others : List Node} {e d : Cursor} (hk : (c.peekAt 0).isName = true)
      (ha : arrowAhead? c = none)
      (hn : (c.peekAt 1).kind = .assign ∨ (c.peekAt 1).kind = .colon)
      (hf : (blockOrAssignment n).Gives c first e) (ho : (pipelineItems n).Gives e others d) :
      PipelineItems n c (first :: others) d

/-- The part of a pipeline that begins with a name is an arrow or a step, and the rest. -/
theorem gives_pipelineName (n : Nat) (t : Token) (c : Cursor) (ns : List Node) (d : Cursor)
    (hk : (c.peekAt 0).isName = true) :
    (do
      match arrowAhead? (← get) with
      | some relation =>
        let first ← arrow n relation
        return first :: (← pipelineItems n)
      | none =>
        let next ← peekAt 1
        if next.kind = .assign ∨ next.kind = .colon then
          let first ← blockOrAssignment n
          return first :: (← pipelineItems n)
        else
          fail t .pipelineStep : Rule (List Node)).Gives c ns d ↔ PipelineItems n c ns d := by
  rw [gives_get_bind]
  cases ha : arrowAhead? c with
  | none =>
    simp only [gives_bind, gives_ite, gives_peekAt, gives_pure, not_gives_fail, and_false, or_false]
    constructor
    · rintro ⟨_, _, ⟨rfl, rfl⟩, hn, first, e, hf, others, _, ho, rfl, rfl⟩
      exact .step hk ha hn hf ho
    · intro h
      cases h with
      | close h | comment h => simp [Token.isName, h] at hk
      | arrow _ h => simp [ha] at h
      | step _ _ hn hf ho => exact ⟨_, _, ⟨rfl, rfl⟩, hn, _, _, hf, _, d, ho, rfl, rfl⟩
  | some relation =>
    simp only [gives_bind, gives_pure]
    constructor
    · rintro ⟨first, e, hf, others, _, ho, rfl, rfl⟩
      exact .arrow hk ha hf ho
    · intro h
      cases h with
      | close h | comment h => simp [Token.isName, h] at hk
      | arrow _ h hf ho =>
        obtain rfl := Option.some.inj (ha.symm.trans h)
        exact ⟨_, _, hf, _, d, ho, rfl, rfl⟩
      | step _ h => simp [ha] at h

/-- The items of a pipeline are comments, arrows between steps, and names that are assigned to. Separators
in front of them are passed. -/
theorem gives_pipelineItems (n : Nat) (c : Cursor) (ns : List Node) (d : Cursor) :
    (pipelineItems (n + 1)).Gives c ns d ↔ PipelineItems n c.skipSeparators ns d := by
  rw [pipelineItems, gives_bind]
  simp only [gives_skipSeparators]
  constructor
  · rintro ⟨_, _, rfl, h⟩
    rw [gives_bind] at h
    simp only [gives_peek] at h
    obtain ⟨_, _, ⟨rfl, rfl⟩, h⟩ := h
    split at h
    next hk =>
      simp only [gives_bind, gives_advance, gives_pure] at h
      obtain ⟨_, _, ⟨-, rfl⟩, rfl, rfl⟩ := h
      exact .close hk
    next hk =>
      simp only [gives_bind, gives_advance, gives_pure] at h
      obtain ⟨_, _, ⟨-, rfl⟩, others, _, ho, rfl, rfl⟩ := h
      exact .comment hk ho
    next hk => exact (gives_pipelineName n _ _ ns d (by simp [Token.isName, hk])).1 h
    next hk => exact (gives_pipelineName n _ _ ns d (by simp [Token.isName, hk])).1 h
    next => exact absurd h (not_gives_fail _ _ _ _ _)
    next => exact absurd h (not_gives_fail _ _ _ _ _)
  · intro h
    refine ⟨(), _, rfl, (gives_bind _ _ _ _ _).2 ⟨_, _, (gives_peek _ _ _).2 ⟨rfl, rfl⟩, ?_⟩⟩
    have named (hk : (c.skipSeparators.peekAt 0).isName = true) :=
      (gives_pipelineName n (c.skipSeparators.peekAt 0) _ ns d hk).2 h
    cases h with
    | close hk =>
      rw [hk]
      simp only [gives_bind, gives_advance, gives_pure]
      exact ⟨_, _, ⟨rfl, rfl⟩, trivial, rfl⟩
    | comment hk ho =>
      rw [hk]
      simp only [gives_bind, gives_advance, gives_pure]
      exact ⟨_, _, ⟨rfl, rfl⟩, _, _, ho, rfl, rfl⟩
    | arrow hk | step hk =>
      have h := named hk
      rcases Token.isName_iff.1 hk with hk | hk <;> (rw [hk]; exact h)

/-! ## 5. Whole texts -/

/-- A document is a sequence of statements with separators between them, up to the end of input. -/
theorem gives_document (n : Nat) (c : Cursor) (ns : List Node) (d : Cursor) :
    (document (n + 1)).Gives c ns d ↔
      ((c.skipSeparators.peekAt 0).kind = .eof ∧ ns = [] ∧ d = c.skipSeparators) ∨
        ((c.skipSeparators.peekAt 0).kind ≠ .eof ∧ ∃ first e others,
          (statement n).Gives c.skipSeparators first e ∧ (document n).Gives e others d ∧
            ns = first :: others) := by
  simp only [document, gives_bind, gives_ite, gives_peek, gives_pure, gives_skipSeparators]
  constructor
  · rintro ⟨_, _, rfl, _, _, ⟨rfl, rfl⟩, ⟨hk, rfl, rfl⟩ | ⟨hk, first, e, hf, others, _, ho, rfl,
      rfl⟩⟩
    · exact .inl ⟨hk, rfl, rfl⟩
    · exact .inr ⟨hk, first, e, others, hf, ho, rfl⟩
  · rintro (⟨hk, rfl, rfl⟩ | ⟨hk, first, e, others, hf, ho, rfl⟩)
    · exact ⟨(), _, rfl, _, _, ⟨rfl, rfl⟩, .inl ⟨hk, rfl, rfl⟩⟩
    · exact ⟨(), _, rfl, _, _, ⟨rfl, rfl⟩, .inr ⟨hk, first, e, hf, others, d, ho, rfl, rfl⟩⟩

/-- A lone expression, behind which only comments may stand. -/
theorem gives_loneExpression (n : Nat) (c : Cursor) (t : Node) (d : Cursor) :
    (loneExpression n).Gives c t d ↔ ∃ e, (expression n).Gives c t e ∧
      (e.skipComments.peekAt 0).kind = .eof ∧ d = e.skipComments := by
  simp only [loneExpression, gives_bind, gives_ite, gives_peek, gives_pure, gives_skipComments,
    not_gives_fail, and_false, or_false]
  constructor
  · rintro ⟨_, e, ht, _, _, rfl, _, _, ⟨rfl, rfl⟩, hk, rfl, rfl⟩
    exact ⟨e, ht, hk, rfl⟩
  · rintro ⟨e, ht, hk, rfl⟩
    exact ⟨t, e, ht, (), _, rfl, _, _, ⟨rfl, rfl⟩, hk, rfl, rfl⟩

end Rule

end BlockConfig
