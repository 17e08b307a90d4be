import BlockConfig.Proofs.Grammar.Budget

/-!
Every reading ends.

A rule with a large budget and one with a larger one go the same way, step by step, as long as the
smaller one is not used up (`Rule.Decided`). It is not used up because between two calls that are
made at the same token there are fewer than ten others, and everything else happens behind a token
that has been read. So a budget that is ten for each token ahead decides every rule: it ends with a
result or with a fault that lies in the tokens (`Rule.settled`). The one step that reads nothing, to
pass the end of input, is never what a rule waits for: whoever goes on behind a token has seen that
this token is something else.

Two searches look ahead without reading. They look at one token after another and see the last one
again behind it; since that is the end of input, which neither of them passes over, they are over
when they get there.
-/

set_option autoImplicit false

namespace BlockConfig

open Cursor

namespace Cursor

variable {c : Cursor}

/-- A token that is not the end of input can be passed. -/
theorem Holds.length_skip (hc : c.Ended) (hk : (c.peekAt 0).kind ≠ .eof) :
    c.skip.rest.length + 1 = c.rest.length := by
  have h := (hc.reads_skip (p := fun _ => True) rfl hk trivial).shorter
  have hne := List.length_pos_iff.2 hc.skip.ne_nil
  exact Seam.length_skip (by omega)

/-- If the token behind the next one is not the end of input, then the next one is not either, and passing
it makes the list shorter by one. -/
theorem Holds.length_skip_of_skip (hc : c.Ended) (hk : (c.skip.peekAt 0).kind ≠ .eof) :
    c.skip.rest.length + 1 = c.rest.length := by
  obtain ⟨line, _ | ⟨t, _ | ⟨u, rest⟩⟩⟩ := c
  · exact absurd rfl hc.ne_nil
  · obtain ⟨⟨u, hu, heof⟩, -⟩ := hc
    obtain rfl : t = u := by simpa using hu
    exact absurd heof hk
  · rfl

/-- Behind the comments in front of an `ELSE` stands its word. -/
theorem ne_eof_of_elseAhead (h : Rule.elseAhead c = true) :
    (c.skipComments.peekAt 0).kind ≠ .eof := by
  have hword : ∀ {line : Nat} {t : Token} {ts : List Token}, t.kind ≠ .comment →
      Rule.elseAhead ⟨line, t :: ts⟩ = true → t.kind ≠ .eof := by
    intro line t ts hk h heof
    rw [Seam.elseAhead_cons line 0, if_neg hk, heof] at h
    exact Bool.noConfusion h
  obtain ⟨line, ts⟩ := c
  show ((skipKinds (fun k => decide (k = .comment)) line ts).peekAt 0).kind ≠ .eof
  fun_induction skipKinds (fun k => decide (k = .comment)) line ts with
  | case1 line t u rest hk ih =>
    rw [Seam.elseAhead_cons line t.pos.line, if_pos (of_decide_eq_true hk)] at h
    exact ih h
  | case2 line t u rest hk =>
    have hk' : t.kind ≠ .comment := by simpa using hk
    exact hword hk' h
  | case3 line ts hshort =>
    rcases ts with _ | ⟨t, _ | ⟨u, rest⟩⟩
    · exact Bool.noConfusion h
    · by_cases hk : t.kind = .comment
      · rw [Seam.elseAhead_cons line 0, if_pos hk] at h
        exact Bool.noConfusion h
      · exact hword hk h
    · exact absurd rfl (hshort t u rest)

/-- Nor is the end of input an operator. -/
theorem ne_eof_of_unaryOp {op : UnaryOp} (h : UnaryOp.ofKind? (c.peekAt 0).kind = some op) :
    (c.peekAt 0).kind ≠ .eof := by
  intro heof
  simp [heof, UnaryOp.ofKind?] at h

/-- An operator is a token or a word, and neither is the end of input. -/
theorem ne_eof_of_operator? {op : BinaryOp} (h : c.operator? = some op) :
    (c.peekAt 0).kind ≠ .eof := by
  intro heof
  simp [operator?, heof, BinaryOp.ofKind?] at h

end Cursor

namespace Rule

variable {α β : Type}

/-! ## 1. Steps -/

/-- Two rules do the same at a cursor, and what they do is not to run out of budget. -/
structure Decided (r s : Rule α) (c : Cursor) : Prop where
  same : s c = r c
  fault : ∀ m, r c = .error m → m.fault ≠ .exhausted

section Steps

variable {r r' s s' : Rule α} {f g : α → Rule β} {c : Cursor}

/-- A rule that succeeds has not run out of budget. -/
theorem decided_of_gives {a : α} {d : Cursor} (h : r.Gives c a d) : Decided r r c where
  same := rfl
  fault := by
    intro m hm
    cases h.symm.trans hm

theorem decided_pure (a : α) : Decided (pure a) (pure a) c :=
  decided_of_gives ((gives_pure a a c c).2 ⟨rfl, rfl⟩)

/-- A fault of its own is no lack of budget. -/
theorem decided_fail (t : Token) {fault : SyntaxFault} (h : fault ≠ .exhausted) :
    Decided (fail t fault : Rule α) (fail t fault) c where
  same := rfl
  fault := by
    rintro m ⟨⟩
    exact h

/-- One step after another: the second one begins where the first one ends, if it succeeds. -/
theorem Decided.bind (h : Decided r s c) (hf : ∀ a d, r.Gives c a d → Decided (f a) (g a) d) :
    Decided (r >>= f) (s >>= g) c := by
  have happly : ∀ (r : Rule α) (f : α → Rule β), (r >>= f) c = (r c).bind fun p => f p.1 p.2 :=
    fun _ _ => rfl
  cases hr : r c with
  | error m =>
    refine ⟨?_, fun m' hm' => ?_⟩
    · rw [happly, happly, h.same]
      rw [hr]
      rfl
    · rw [happly, hr] at hm'
      obtain rfl := Except.error.inj hm'
      exact h.fault m hr
  | ok p =>
    have hd := hf p.1 p.2 hr
    refine ⟨?_, fun m hm => ?_⟩
    · rw [happly, happly, h.same, hr]
      exact hd.same
    · rw [happly, hr] at hm
      exact hd.fault m hm

/-- Behind a rule that reads something fewer tokens are ahead. -/
theorem Decided.bind_consumes {p : Kind → Prop} (h : Decided r s c) (hr : Consumes p r)
    (hc : c.Ended)
    (hf : ∀ a d, d.Ended → d.rest.length < c.rest.length → Decided (f a) (g a) d) :
    Decided (r >>= f) (s >>= g) c :=
  h.bind fun a d hd => hf a d (hr hc hd).ended (hr hc hd).shorter

/-- Both rules take the same branch, since the condition depends on the tokens and not on the budget. -/
theorem decided_ite {p : Prop} [Decidable p] (hr : p → Decided r r' c)
    (hs : ¬p → Decided s s' c) : Decided (if p then r else s) (if p then r' else s') c := by
  by_cases hp : p
  · rw [if_pos hp, if_pos hp]
    exact hr hp
  · rw [if_neg hp, if_neg hp]
    exact hs hp

end Steps

section Tokens

variable {r r' s s' : Rule α} {c : Cursor}

/-- Looking ahead costs nothing, so what follows has to be decided at the same cursor. -/
theorem decided_peekAt {f g : Token → Rule β} (n : Nat)
    (h : Decided (f (c.peekAt n)) (g (c.peekAt n)) c) :
    Decided (peekAt n >>= f) (peekAt n >>= g) c := by
  refine (decided_of_gives ((gives_peekAt n c _ c).2 ⟨rfl, rfl⟩)).bind fun t d hd => ?_
  obtain ⟨rfl, rfl⟩ := (gives_peekAt n c t d).1 hd
  exact h

theorem decided_peek {f g : Token → Rule β} (h : Decided (f (c.peekAt 0)) (g (c.peekAt 0)) c) :
    Decided (peek >>= f) (peek >>= g) c :=
  decided_peekAt 0 h

theorem decided_get {f g : Cursor → Rule β} (h : Decided (f c) (g c) c) :
    Decided (get >>= f) (get >>= g) c := by
  refine (decided_of_gives ((gives_get c c c).2 ⟨rfl, rfl⟩)).bind fun a d hd => ?_
  obtain ⟨rfl, rfl⟩ := (gives_get c a d).1 hd
  exact h

theorem decided_set {f g : PUnit → Rule β} (d : Cursor) (h : Decided (f ⟨⟩) (g ⟨⟩) d) :
    Decided (set d >>= f) (set d >>= g) c := by
  refine (decided_of_gives ((gives_set d c ⟨⟩ d).2 rfl)).bind fun u e he => ?_
  obtain rfl := (gives_set d c u e).1 he
  exact h

theorem decided_advance {f g : Token → Rule β}
    (h : Decided (f (c.peekAt 0)) (g (c.peekAt 0)) c.skip) :
    Decided (advance >>= f) (advance >>= g) c := by
  refine (decided_of_gives ((gives_advance c _ c.skip).2 ⟨rfl, rfl⟩)).bind fun t d hd => ?_
  obtain ⟨rfl, rfl⟩ := (gives_advance c t d).1 hd
  exact h

theorem decided_operator? {f g : Option BinaryOp → Rule β}
    (h : Decided (f c.operator?) (g c.operator?) c) :
    Decided (operator? >>= f) (operator? >>= g) c := by
  refine (decided_of_gives ((gives_operator? c _ c).2 ⟨rfl, rfl⟩)).bind fun t d hd => ?_
  obtain ⟨rfl, rfl⟩ := (gives_operator? c t d).1 hd
  exact h

theorem decided_skipComments {f g : Unit → Rule β} (h : Decided (f ()) (g ()) c.skipComments) :
    Decided (skipComments >>= f) (skipComments >>= g) c := by
  refine (decided_of_gives ((gives_skipComments c () _).2 rfl)).bind fun u d hd => ?_
  obtain rfl := (gives_skipComments c u d).1 hd
  exact h

theorem decided_skipSeparators {f g : Unit → Rule β}
    (h : Decided (f ()) (g ()) c.skipSeparators) :
    Decided (skipSeparators >>= f) (skipSeparators >>= g) c := by
  refine (decided_of_gives ((gives_skipSeparators c () _).2 rfl)).bind fun u d hd => ?_
  obtain rfl := (gives_skipSeparators c u d).1 hd
  exact h

/-- Whether a token is eaten is decided by its kind. In both cases what follows is decided where it
begins. -/
theorem decided_eat (kind : Kind) (hyes : (c.peekAt 0).kind = kind → Decided r r' c.skip)
    (hno : (c.peekAt 0).kind ≠ kind → Decided s s' c) :
    Decided (eat kind >>= fun b => if b = true then r else s)
      (eat kind >>= fun b => if b = true then r' else s') c := by
  by_cases hk : (c.peekAt 0).kind = kind
  · refine (decided_of_gives ((gives_eat kind c true _).2 (.inl ⟨hk, rfl, rfl⟩))).bind
      fun b d hd => ?_
    obtain ⟨-, rfl, rfl⟩ | ⟨hno, -⟩ := (gives_eat kind c b d).1 hd
    · exact hyes hk
    · exact absurd hk hno
  · refine (decided_of_gives ((gives_eat kind c false _).2 (.inr ⟨hk, rfl, rfl⟩))).bind
      fun b d hd => ?_
    obtain ⟨hyes, -⟩ | ⟨-, rfl, rfl⟩ := (gives_eat kind c b d).1 hd
    · exact absurd hyes hk
    · exact hno hk

/-- A token of another kind is a fault of the tokens, so only the case that it is there needs to be decided
further. -/
theorem decided_expect {f g : Token → Rule β} (kind : Kind) (context : String)
    (h : (c.peekAt 0).kind = kind → Decided (f (c.peekAt 0)) (g (c.peekAt 0)) c.skip) :
    Decided (expect kind context >>= f) (expect kind context >>= g) c := by
  have hself : Decided (expect kind context) (expect kind context) c :=
    decided_peek (decided_ite (fun _ => decided_of_gives ((gives_advance c _ _).2 ⟨rfl, rfl⟩))
      fun _ => decided_fail _ SyntaxFault.noConfusion)
  refine hself.bind fun t d hd => ?_
  obtain ⟨hk, rfl, rfl⟩ := (gives_expect kind context c t d).1 hd
  exact h hk

/-- The same for names. -/
theorem decided_expectName {f g : Token → Rule β} (context : String)
    (h : (c.peekAt 0).isName = true → Decided (f (c.peekAt 0)) (g (c.peekAt 0)) c.skip) :
    Decided (expectName context >>= f) (expectName context >>= g) c := by
  have hself : Decided (expectName context) (expectName context) c :=
    decided_peek (decided_ite (fun _ => decided_of_gives ((gives_advance c _ _).2 ⟨rfl, rfl⟩))
      fun _ => decided_fail _ SyntaxFault.noConfusion)
  refine hself.bind fun t d hd => ?_
  obtain ⟨hk, rfl, rfl⟩ := (gives_expectName context c t d).1 hd
  exact h hk

end Tokens

/-! ## 2. All rules at once -/

/-- A rule does the same with budget `n` and with budget `k`, and does not run out of it, if `n` is
ten for each token ahead and `extra`. -/
def Settles (extra n k : Nat) (r : Nat → Rule α) : Prop :=
  ∀ {c : Cursor}, c.Ended → 10 * c.rest.length + extra ≤ n → Decided (r n) (r k) c

/-- The same from a token that is not the end of input. -/
def SettlesInside (extra n k : Nat) (r : Nat → Rule α) : Prop :=
  ∀ {c : Cursor}, c.Ended → (c.peekAt 0).kind ≠ .eof → 10 * c.rest.length + extra ≤ n →
    Decided (r n) (r k) c

/-- How much all rules need to be decided. -/
structure Settled (n k : Nat) : Prop where
  expression : Settles 5 n k expression
  binary : ∀ {least : Nat}, Settles 4 n k (binary · least)
  climb : ∀ {least : Nat} {left : Node}, Settles 1 n k (climb · least left)
  unary : Settles 3 n k unary
  members : ∀ {left : Node}, Settles 1 n k (members · left)
  primary : Settles 2 n k primary
  items : ∀ {close : Kind} {context : String}, Settles 6 n k (items · close context)
  body : ∀ {context : String}, Settles 1 n k (body · context)
  bodyItems : ∀ {context : String}, Settles 3 n k (bodyItems · context)
  statement : Settles 2 n k statement
  arrow : ∀ {relation : Option Relation}, Settles 1 n k (arrow · relation)
  blockOrAssignment : Settles 1 n k blockOrAssignment
  moreValues : ∀ {limit : Nat}, Settles 1 n k (moreValues · limit)
  control : SettlesInside 1 n k control
  elseChain : Settles 2 n k elseChain
  directive : Settles 1 n k directive
  execArguments : ∀ {sign : Token} {cmd args dir : Option Node},
    Settles 1 n k (execArguments · sign cmd args dir)
  moreExecArguments : ∀ {sign : Token} {cmd args dir : Option Node},
    Settles 1 n k (moreExecArguments · sign cmd args dir)
  pipelineItems : Settles 2 n k pipelineItems

/-- No budget is too small to be looked at. -/
theorem settled_zero (k : Nat) : Settled 0 k := by
  constructor <;> repeat intro
  all_goals omega

/-- A rule with a budget goes at least one step, so it is enough to say what is needed for the rules that it
calls. -/
theorem Settles.succ {extra n k : Nat} {r : Nat → Rule α}
    (h : ∀ {c : Cursor}, c.Ended → 10 * c.rest.length + extra ≤ n →
      Decided (r (n + 1)) (r (k + 1)) c) : Settles (extra + 1) (n + 1) (k + 1) r :=
  fun hc hn => h hc (by omega)

/-! ### Expressions -/

section Expressions

variable {n k : Nat} (S : Settled n k)
include S

/-- A choice needs room for a condition. Its values stand behind a question mark and a colon, so with fewer
tokens ahead. -/
theorem settles_expression : Settles 5 (n + 1) (k + 1) expression := by
  apply Settles.succ
  intro c hc hn
  simp only [expression]
  refine (S.binary hc (by omega)).bind_consumes (forward n).binary hc fun condition e he l₁ => ?_
  refine decided_eat .question (fun _ => ?_) fun _ => decided_pure _
  have l₂ := e.length_skip_le
  refine (S.expression he.skip (by omega)).bind_consumes (forward n).expression he.skip
    fun yes e₁ he₁ l₃ => ?_
  refine decided_expect .colon _ fun _ => ?_
  have l₄ := e₁.length_skip_le
  exact (S.expression he₁.skip (by omega)).bind fun no d _ => decided_pure _

/-- Operands joined by operators need room for the first operand; everything else stands behind it. -/
theorem settles_binary {least : Nat} : Settles 4 (n + 1) (k + 1) (binary · least) := by
  apply Settles.succ
  intro c hc hn
  simp only [binary]
  refine (S.unary hc (by omega)).bind_consumes (forward n).unary hc fun left e he l₁ => ?_
  exact S.climb he (by omega)

/-- The operands that follow stand behind an operator, which has been read by then. -/
theorem settles_climb {least : Nat} {left : Node} :
    Settles 1 (n + 1) (k + 1) (climb · least left) := by
  apply Settles.succ
  intro c hc hn
  simp only [climb]
  refine decided_operator? ?_
  cases hop : c.operator? with
  | none => exact decided_pure _
  | some op =>
    refine decided_ite (fun _ => decided_pure _) fun _ => decided_advance ?_
    have l₁ := hc.length_skip (ne_eof_of_operator? hop)
    refine (S.binary hc.skip (by omega)).bind_consumes (forward n).binary hc.skip
      fun right e he l₂ => ?_
    exact S.climb he (by omega)

/-- An operand needs room for its first part. An operator in front of it is a token that is read. -/
theorem settles_unary : Settles 3 (n + 1) (k + 1) unary := by
  apply Settles.succ
  intro c hc hn
  simp only [unary]
  refine decided_peek ?_
  cases hop : UnaryOp.ofKind? (c.peekAt 0).kind with
  | some op =>
    refine decided_advance ?_
    have l₁ := hc.length_skip (ne_eof_of_unaryOp hop)
    exact (S.unary hc.skip (by omega)).bind fun operand d _ => decided_pure _
  | none =>
    refine (S.primary hc (by omega)).bind_consumes (forward n).primary hc fun left e he l₁ => ?_
    exact S.members he (by omega)

/-- Members stand behind a dot each. -/
theorem settles_members {left : Node} : Settles 1 (n + 1) (k + 1) (members · left) := by
  apply Settles.succ
  intro c hc hn
  simp only [members]
  refine decided_eat .dot (fun hk => ?_) fun _ => decided_pure _
  refine decided_expectName _ fun _ => ?_
  have l₁ := hc.length_skip (by simp [hk])
  have l₂ := c.skip.length_skip_le
  exact S.members hc.skip.skip (by omega)

/-- An operand in brackets has its opening bracket read before the rule for its content is asked. Maps and
directives leave their first token to that rule, which needs less room than an operand. -/
theorem settles_primary : Settles 2 (n + 1) (k + 1) primary := by
  apply Settles.succ
  intro c hc hn
  simp only [primary]
  refine decided_peek ?_
  have l₂ := c.skip.length_skip_le
  cases hk : (c.peekAt 0).kind
  case number =>
    refine decided_advance ?_
    cases numberLiteral? (c.peekAt 0).literal with
    | some v => exact decided_pure _
    | none => exact decided_fail _ SyntaxFault.noConfusion
  case str | heredoc | bool | envRef => exact decided_advance (decided_pure _)
  case ident =>
    have l₁ := hc.length_skip (by simp [hk])
    refine decided_advance (decided_ite (fun _ => decided_pure _) fun _ => decided_peek ?_)
    refine decided_ite (fun _ => ?_) fun _ => decided_pure _
    refine decided_expect .lparen _ fun _ => ?_
    exact (S.items hc.skip.skip (by omega)).bind fun args d _ => decided_pure _
  case lparen =>
    have l₁ := hc.length_skip (by simp [hk])
    refine decided_advance ?_
    refine (S.expression hc.skip (by omega)).bind fun inner e _ => ?_
    exact decided_expect .rparen _ fun _ => decided_pure _
  case lbracket =>
    have l₁ := hc.length_skip (by simp [hk])
    refine decided_expect .lbracket _ fun _ => ?_
    exact (S.items hc.skip (by omega)).bind fun elements d _ => decided_pure _
  case lbrace => exact (S.body hc (by omega)).bind fun statements d _ => decided_pure _
  case atSign => exact S.directive hc (by omega)
  all_goals exact decided_fail _ SyntaxFault.noConfusion

/-- Items may begin with an expression at once, so a list of them needs one more than an expression does. -/
theorem settles_items {close : Kind} {context : String} :
    Settles 6 (n + 1) (k + 1) (items · close context) := by
  apply Settles.succ
  intro c hc hn
  simp only [items]
  have hcs := hc.skipComments
  have l₁ := c.length_skipComments_le
  refine decided_skipComments (decided_eat close (fun _ => decided_pure _) fun _ => ?_)
  refine (S.expression hcs (by omega)).bind_consumes (forward n).expression hcs
    fun item e he l₂ => decided_skipComments ?_
  have l₃ := e.length_skipComments_le
  have l₄ := e.skipComments.length_skip_le
  refine decided_eat .comma (fun _ => ?_) fun _ => decided_expect close _ fun _ => decided_pure _
  exact (S.items he.skipComments.skip (by omega)).bind fun others d _ => decided_pure _

end Expressions

/-! ### Statements -/

section Statements

variable {n k : Nat} (S : Settled n k)
include S

/-- Statements in braces stand behind a brace. -/
theorem settles_body {context : String} : Settles 1 (n + 1) (k + 1) (body · context) := by
  apply Settles.succ
  intro c hc hn
  simp only [body]
  refine decided_expect .lbrace _ fun hk => ?_
  have l₁ := hc.length_skip (by simp [hk])
  exact S.bodyItems hc.skip (by omega)

/-- Statements without their opening brace need room for the first one, as long as there is one. -/
theorem settles_bodyItems {context : String} :
    Settles 3 (n + 1) (k + 1) (bodyItems · context) := by
  apply Settles.succ
  intro c hc hn
  simp only [bodyItems]
  have hcs := hc.skipSeparators
  have l₁ := c.length_skipSeparators_le
  refine decided_skipSeparators (decided_eat .rbrace (fun _ => decided_pure _) fun _ => ?_)
  refine decided_peek (decided_ite (fun _ => decided_fail _ SyntaxFault.noConfusion) fun _ => ?_)
  refine (S.statement hcs (by omega)).bind_consumes (forward n).statement hcs
    fun first e he l₂ => ?_
  exact (S.bodyItems he (by omega)).bind fun others d _ => decided_pure _

/-- A name goes on as an arrow or as something else. -/
theorem decided_named {c : Cursor} (hc : c.Ended) (hn : 10 * c.rest.length + 1 ≤ n) :
    Decided
      (do
        match arrowAhead? (← get) with
        | some relation => arrow n relation
        | none => blockOrAssignment n : Rule Node)
      (do
        match arrowAhead? (← get) with
        | some relation => arrow k relation
        | none => blockOrAssignment k : Rule Node) c := by
  refine decided_get ?_
  cases arrowAhead? c with
  | some relation => exact S.arrow hc hn
  | none => exact S.blockOrAssignment hc hn

/-- A statement leaves its first token to the rule it is handed to. -/
theorem settles_statement : Settles 2 (n + 1) (k + 1) statement := by
  apply Settles.succ
  intro c hc hn
  simp only [statement]
  have hnamed := decided_named S hc hn
  refine decided_peek ?_
  cases hk : (c.peekAt 0).kind
  case comment => exact decided_advance (decided_pure _)
  case atSign => exact S.directive hc hn
  case ifWord => exact (S.control hc (by simp [hk]) hn).bind fun branches d _ => decided_pure _
  case ident | str => exact hnamed
  all_goals exact decided_fail _ SyntaxFault.noConfusion

/-- The properties of an arrow stand behind three tokens at least. -/
theorem settles_arrow {relation : Option Relation} :
    Settles 1 (n + 1) (k + 1) (arrow · relation) := by
  apply Settles.succ
  intro c hc hn
  -- Behind the relation, if there is one.
  have htail : ∀ {e : Cursor} (first : Token), e.Ended → e.rest.length ≤ c.rest.length →
      Decided
        (do let source ← expectName "as arrow source"
            let _ ← expect .arrow "in arrow"
            let target ← expectName "as arrow target"
            let properties ←
              if (← peek).kind = Kind.lbrace then body n "for arrow properties" else pure []
            return Node.arrow relation source.literal target.literal properties first.pos)
        (do let source ← expectName "as arrow source"
            let _ ← expect .arrow "in arrow"
            let target ← expectName "as arrow target"
            let properties ←
              if (← peek).kind = Kind.lbrace then body k "for arrow properties" else pure []
            return Node.arrow relation source.literal target.literal properties first.pos) e := by
    intro e first he hle
    refine decided_expectName _ fun hs => decided_expect .arrow _ fun _ =>
      decided_expectName _ fun _ => decided_peek ?_
    have l₁ := (he.reads_name hs).shorter
    have l₂ := e.skip.length_skip_le
    have l₃ := e.skip.skip.length_skip_le
    refine decided_ite (fun _ => ?_) fun _ => (decided_pure _).bind fun _ _ _ => decided_pure _
    exact (S.body he.skip.skip.skip (by omega)).bind fun properties d _ => decided_pure _
  simp only [arrow]
  refine decided_peek ?_
  cases relation with
  | none => exact htail _ hc (Nat.le_refl _)
  | some r => exact decided_advance (htail _ hc.skip c.length_skip_le)

/-- Whatever begins with a name has read one token before it asks for more. With several targets it
continues behind their equals sign, which is further ahead. -/
theorem settles_blockOrAssignment : Settles 1 (n + 1) (k + 1) blockOrAssignment := by
  apply Settles.succ
  intro c hc hn
  simp only [blockOrAssignment]
  -- A second token other than the end of input leaves room for reading one more.
  have hroom : (c.peekAt 1).kind ≠ .eof → c.skip.rest.length + 1 = c.rest.length := by
    rw [Seam.peekAt_succ]
    exact hc.length_skip_of_skip
  have l₁ := c.skip.length_skip_le
  refine decided_peek (decided_peekAt 1 (decided_ite (fun hb => ?_) fun hb => ?_))
  · have l₂ := hroom (by simp [hb])
    exact decided_advance ((S.body hc.skip (by omega)).bind fun statements d _ => decided_pure _)
  refine decided_peekAt 2 (decided_ite (fun hl => ?_) fun hl => ?_)
  · have l₂ := hroom fun heof => by simp [Token.isName, heof] at hl
    refine decided_advance (decided_advance ?_)
    exact (S.body hc.skip.skip (by omega)).bind fun statements d _ => decided_pure _
  refine decided_ite (fun ha => ?_) fun ha => ?_
  · have l₂ := hroom fun heof => by simp [heof] at ha
    refine decided_advance (decided_advance ?_)
    exact (S.expression hc.skip.skip (by omega)).bind fun value d _ => decided_pure _
  refine decided_ite (fun hk => decided_get ?_) fun _ => decided_fail _ SyntaxFault.noConfusion
  cases ht : targetList? c.rest with
  | none => exact decided_advance (decided_pure _)
  | some p =>
    obtain ⟨targets, sign, rest⟩ := p
    -- The value begins behind the equals sign, which is further ahead than the name.
    have hcomma := comma_of_targetList? ht fun hs => ha (.inl hs)
    have hsign : Cursor.Ended ⟨sign.pos.line, rest⟩ := (targets_of_targetList? hc ht hcomma).2.2
    have l₂ := length_lt_of_targetList? ht
    have hvalue : Decided (expression n) (expression k) ⟨sign.pos.line, rest⟩ :=
      S.expression hsign (by simp only; omega)
    refine decided_set _ (hvalue.bind_consumes (forward n).expression hsign fun first e he l₃ => ?_)
    simp only at l₃
    refine (S.moreValues he (by omega)).bind fun others d _ => ?_
    refine decided_ite (fun _ => decided_pure _) fun _ => ?_
    exact decided_ite (fun _ => decided_pure _) fun _ => decided_fail _ SyntaxFault.noConfusion

/-- Each further value stands behind a comma. -/
theorem settles_moreValues {limit : Nat} : Settles 1 (n + 1) (k + 1) (moreValues · limit) := by
  apply Settles.succ
  intro c hc hn
  cases limit with
  | zero =>
    simp only [moreValues]
    exact decided_pure _
  | succ limit =>
    simp only [moreValues]
    refine decided_eat .comma (fun hk => ?_) fun _ => decided_pure _
    have l₁ := hc.length_skip (by simp [hk])
    refine (S.expression hc.skip (by omega)).bind_consumes (forward n).expression hc.skip
      fun value e he l₂ => ?_
    exact (S.moreValues he (by omega)).bind fun others d _ => decided_pure _

/-- A branch has a keyword in front, which is read before its condition. -/
theorem settles_control : SettlesInside 1 (n + 1) (k + 1) control := by
  intro c hc hk hn
  simp only [control]
  have l₁ := hc.length_skip hk
  refine decided_advance ?_
  refine (S.expression hc.skip (by omega)).bind_consumes (forward n).expression hc.skip
    fun condition e he l₂ => ?_
  refine (S.body he (by omega)).bind_consumes (forward n).body he fun statements e₁ he₁ l₃ => ?_
  exact (S.elseChain he₁ (by omega)).bind fun others d _ => decided_pure _

/-- The search over comments for a keyword reads nothing. If there is one, the comments in front of it are
read and the keyword is no end of input. -/
theorem settles_elseChain : Settles 2 (n + 1) (k + 1) elseChain := by
  apply Settles.succ
  intro c hc hn
  simp only [elseChain]
  have hcs := hc.skipComments
  have l₁ := c.length_skipComments_le
  refine decided_get (decided_ite (fun ha => ?_) fun _ => decided_pure _)
  have hk := ne_eof_of_elseAhead ha
  have l₂ := hcs.length_skip hk
  refine decided_skipComments (decided_peek (decided_ite (fun _ => ?_) fun _ => ?_))
  · exact S.control hcs hk (by omega)
  refine decided_peekAt 1 (decided_ite (fun hif => ?_) fun _ => ?_)
  · rw [Seam.peekAt_succ] at hif
    exact decided_advance (S.control hcs.skip (by simp [hif]) (by omega))
  · exact decided_advance ((S.body hcs.skip (by omega)).bind fun statements d _ => decided_pure _)

end Statements

/-! ### Directives -/

section Directives

variable {n k : Nat} (S : Settled n k)
include S

/-- All directives have the sign and their name read before they look for anything else. -/
theorem settles_directive : Settles 1 (n + 1) (k + 1) directive := by
  apply Settles.succ
  intro c hc hn
  simp only [directive]
  have l₂ := c.skip.length_skip_le
  have l₃ := c.skip.skip.length_skip_le
  refine decided_expect .atSign _ fun hk => decided_expect .ident _ fun _ => ?_
  have l₁ := hc.length_skip (by simp [hk])
  refine decided_ite (fun _ => ?_) fun _ => decided_ite (fun _ => ?_) fun _ =>
    decided_ite (fun _ => ?_) fun _ => decided_fail _ SyntaxFault.noConfusion
  · exact (S.expression hc.skip.skip (by omega)).bind fun target d _ => decided_pure _
  · exact decided_expect .lparen _ fun _ => S.execArguments hc.skip.skip.skip (by omega)
  · refine decided_expect .lbrace _ fun _ => ?_
    exact (S.pipelineItems hc.skip.skip.skip (by omega)).bind fun items d _ => decided_pure _

omit S in
theorem decided_execNode (sign : Token) (cmd args dir : Option Node) {c : Cursor} :
    Decided (execNode sign cmd args dir) (execNode sign cmd args dir) c := by
  cases cmd with
  | some program => exact decided_pure _
  | none => exact decided_fail _ SyntaxFault.noConfusion

/-- A value of an argument stands behind a key and an equals sign. -/
theorem settles_execArguments {sign : Token} {cmd args dir : Option Node} :
    Settles 1 (n + 1) (k + 1) (execArguments · sign cmd args dir) := by
  apply Settles.succ
  intro c hc hn
  simp only [execArguments]
  have hcs := hc.skipComments
  have l₁ := c.length_skipComments_le
  have l₃ := c.skipComments.skip.length_skip_le
  refine decided_skipComments (decided_eat .rparen (fun _ => decided_execNode _ _ _ _) fun _ => ?_)
  refine decided_expect .ident _ fun hk => decided_expect .assign _ fun _ => ?_
  have l₂ := hcs.length_skip (by simp [hk])
  refine (S.expression hcs.skip.skip (by omega)).bind_consumes (forward n).expression hcs.skip.skip
    fun value e he l₄ => ?_
  refine decided_ite (fun _ => ?_) fun _ => decided_ite (fun _ => ?_) fun _ =>
    decided_ite (fun _ => ?_) fun _ => decided_fail _ SyntaxFault.noConfusion
  all_goals exact S.moreExecArguments he (by omega)

/-- More arguments stand behind a comma. -/
theorem settles_moreExecArguments {sign : Token} {cmd args dir : Option Node} :
    Settles 1 (n + 1) (k + 1) (moreExecArguments · sign cmd args dir) := by
  apply Settles.succ
  intro c hc hn
  simp only [moreExecArguments]
  have hcs := hc.skipComments
  have l₁ := c.length_skipComments_le
  refine decided_skipComments (decided_eat .comma (fun hk => ?_) fun _ => ?_)
  · have l₂ := hcs.length_skip (by simp [hk])
    exact S.execArguments hcs.skip (by omega)
  · exact decided_expect .rparen _ fun _ => decided_execNode _ _ _ _

/-- Behind an item of a pipeline come the others. -/
theorem decided_moreItems {c : Cursor} (hc : c.Ended) (hn : 10 * c.rest.length + 2 ≤ n)
    (first : Node) :
    Decided (do return first :: (← pipelineItems n)) (do return first :: (← pipelineItems k)) c :=
  (S.pipelineItems hc hn).bind fun _ _ _ => decided_pure _

/-- A name in a pipeline begins an arrow or a step. -/
theorem decided_pipelineName (t : Token) {c : Cursor} (hc : c.Ended)
    (hn : 10 * c.rest.length + 1 ≤ n) :
    Decided
      (do
        match arrowAhead? (← get) with
        | some relation =>
          let first ← arrow n relation
          return first :: (← pipelineItems n)
        | none =>
          let next ← peekAt 1
          if next.kind = .assign ∨ next.kind = .colon then
            let first ← blockOrAssignment n
            return first :: (← pipelineItems n)
          else
            fail t .pipelineStep : Rule (List Node))
      (do
        match arrowAhead? (← get) with
        | some relation =>
          let first ← arrow k relation
          return first :: (← pipelineItems k)
        | none =>
          let next ← peekAt 1
          if next.kind = .assign ∨ next.kind = .colon then
            let first ← blockOrAssignment k
            return first :: (← pipelineItems k)
          else
            fail t .pipelineStep : Rule (List Node)) c := by
  refine decided_get ?_
  cases arrowAhead? c with
  | some relation =>
    refine (S.arrow hc hn).bind_consumes (forward n).arrow hc fun first e he l₁ => ?_
    exact decided_moreItems S he (by omega) first
  | none =>
    refine decided_peekAt 1 (decided_ite (fun _ => ?_) fun _ =>
      decided_fail _ SyntaxFault.noConfusion)
    refine (S.blockOrAssignment hc hn).bind_consumes (forward n).blockOrAssignment hc
      fun first e he l₁ => ?_
    exact decided_moreItems S he (by omega) first

/-- Steps and arrows of a pipeline need as much room as statements. -/
theorem settles_pipelineItems : Settles 2 (n + 1) (k + 1) pipelineItems := by
  apply Settles.succ
  intro c hc hn
  simp only [pipelineItems]
  have hcs := hc.skipSeparators
  have l₁ := c.length_skipSeparators_le
  have hnamed := decided_pipelineName S (c.skipSeparators.peekAt 0) hcs (by omega)
  refine decided_skipSeparators (decided_peek ?_)
  cases hk : (c.skipSeparators.peekAt 0).kind
  case rbrace => exact decided_advance (decided_pure _)
  case comment =>
    have l₂ := hcs.length_skip (by simp [hk])
    exact decided_advance (decided_moreItems S hcs.skip (by omega) _)
  case ident | str => exact hnamed
  all_goals exact decided_fail _ SyntaxFault.noConfusion

end Directives

/-- **No rule runs out of a budget** that is ten for each token ahead and a little more, and what it
does with it, it does with every larger one. -/
theorem settled {n k : Nat} (h : n ≤ k) : Settled n k := by
  induction n generalizing k with
  | zero => exact settled_zero k
  | succ n ih =>
    obtain ⟨k, rfl⟩ : ∃ j, k = j + 1 := ⟨k - 1, by omega⟩
    have S : Settled n k := ih (by omega)
    exact {
      expression := settles_expression S
      binary := settles_binary S
      climb := settles_climb S
      unary := settles_unary S
      members := settles_members S
      primary := settles_primary S
      items := settles_items S
      body := settles_body S
      bodyItems := settles_bodyItems S
      statement := settles_statement S
      arrow := settles_arrow S
      blockOrAssignment := settles_blockOrAssignment S
      moreValues := settles_moreValues S
      control := settles_control S
      elseChain := settles_elseChain S
      directive := settles_directive S
      execArguments := settles_execArguments S
      moreExecArguments := settles_moreExecArguments S
      pipelineItems := settles_pipelineItems S }

/-- A document needs room for its first statement; with each statement there are fewer tokens. Here the
budgets may differ in any way, as nothing calls this rule. -/
theorem settles_document {n k : Nat} (h : n ≤ k) : Settles 3 n k document := by
  induction n generalizing k with
  | zero =>
    intro c hc hn
    omega
  | succ n ih =>
    obtain ⟨k, rfl⟩ : ∃ j, k = j + 1 := ⟨k - 1, by omega⟩
    have S : Settled n k := settled (by omega)
    apply Settles.succ
    intro c hc hn
    simp only [document]
    have hcs := hc.skipSeparators
    have l₁ := c.length_skipSeparators_le
    refine decided_skipSeparators (decided_peek (decided_ite (fun _ => decided_pure _) fun _ => ?_))
    refine (S.statement hcs (by omega)).bind_consumes (forward n).statement hcs
      fun first e he l₂ => ?_
    exact (ih (by omega) he (by omega)).bind fun others d _ => decided_pure _

/-- A lone expression needs what an expression needs. Comments behind it are passed without a rule. -/
theorem settles_loneExpression {n k : Nat} (h : n ≤ k) : Settles 5 n k loneExpression := by
  intro c hc hn
  simp only [loneExpression]
  refine ((settled h).expression hc hn).bind fun node e _ => decided_skipComments (decided_peek ?_)
  exact decided_ite (fun _ => decided_pure _) fun _ => decided_fail _ SyntaxFault.noConfusion

end Rule

/-! ## 3. Looking ahead -/

namespace Cursor

/-- The search for `a, b, c =` ahead, token by token from place `i` on, in at most so many rounds;
nothing if it is not over then. Behind the last token this token is seen again and again. -/
def searchTargets (c : Cursor) : Nat → Nat → Option Bool
  | 0, _ => none
  | rounds + 1, i =>
    if (c.peekAt i).kind = .ident then
      if (c.peekAt (i + 1)).kind = .comma then searchTargets c rounds (i + 2)
      else if (c.peekAt (i + 1)).kind = .assign then some (0 < i)
      else some false
    else some false

/-- The search for the first token ahead that is no comment, from place `i` on. -/
def searchBehindComments (c : Cursor) : Nat → Nat → Option Nat
  | 0, _ => none
  | rounds + 1, i =>
    if (c.peekAt i).kind = .comment then searchBehindComments c rounds (i + 1) else some i

variable {c : Cursor} {i rounds : Nat} {t : Token} {ts : List Token}

/-- Looking ahead is looking at the list without its first tokens. -/
theorem peekAt_of_drop (h : c.rest.drop i = t :: ts) : c.peekAt i = t := by
  have hget : c.rest[i]? = some t := by
    rw [← Nat.add_zero i, ← List.getElem?_drop, h]
    rfl
  simp only [peekAt, hget]

theorem drop_succ (h : c.rest.drop i = t :: ts) : c.rest.drop (i + 1) = ts := by
  rw [← List.drop_drop, h]
  rfl

/-- **The search for several targets is over** after at most as many rounds as tokens are ahead. It
has found what the rule for them reads, unless the equals sign comes at once. -/
theorem searchTargets_eq (hts : Ended ⟨0, ts⟩) (h : c.rest.drop i = ts)
    (hr : ts.length ≤ rounds) :
    c.searchTargets rounds i = some ((Rule.targetList? ts).isSome &&
      decide (0 < i ∨ (c.peekAt (i + 1)).kind ≠ .assign)) := by
  induction rounds generalizing i ts with
  | zero => exact absurd (List.length_eq_zero_iff.1 (Nat.le_zero.1 hr)) hts.ne_nil
  | succ rounds ih =>
    rcases ts with _ | ⟨t, _ | ⟨u, rest⟩⟩
    · exact absurd rfl hts.ne_nil
    · -- The last token is the end of input.
      have ht : t.kind = .eof := by
        obtain ⟨⟨x, hx, heof⟩, -⟩ := hts
        obtain rfl : t = x := by simpa using hx
        exact heof
      simp [searchTargets, peekAt_of_drop h, ht, Rule.targetList?]
    · have hu := peekAt_of_drop (drop_succ h)
      rw [searchTargets, peekAt_of_drop h, hu, Rule.targetList?]
      -- Both go on behind a name and a comma, and stop at anything else.
      by_cases ht : t.kind = .ident
      · rw [if_pos ht, if_pos ht]
        by_cases hcomma : u.kind = .comma
        · have hfirst : Ended ⟨0, u :: rest⟩ := hts.tail (by simp [ht])
          have hrest : Ended ⟨0, rest⟩ := hfirst.tail (by simp [hcomma])
          simp only [List.length_cons] at hr
          rw [if_pos hcomma, if_pos hcomma, Option.isSome_map,
            ih hrest (drop_succ (drop_succ h)) (by omega)]
          simp [hcomma]
        · rw [if_neg hcomma, if_neg hcomma]
          by_cases hassign : u.kind = .assign <;> simp [hassign]
      · rw [if_neg ht, if_neg ht]
        rfl

/-- **The search behind comments is over** after at most as many rounds as tokens are ahead, and it
ends at the token that the rule for `ELSE` looks at. -/
theorem exists_searchBehindComments (hts : Ended ⟨0, ts⟩) (h : c.rest.drop i = ts)
    (hr : ts.length ≤ rounds) :
    ∃ j, c.searchBehindComments rounds i = some j ∧
      Rule.elseAhead ⟨0, ts⟩ =
        ((c.peekAt j).kind = .elseIfWord || (c.peekAt j).kind = .elseWord) := by
  induction rounds generalizing i ts with
  | zero => exact absurd (List.length_eq_zero_iff.1 (Nat.le_zero.1 hr)) hts.ne_nil
  | succ rounds ih =>
    cases ts with
    | nil => exact absurd rfl hts.ne_nil
    | cons t ts =>
      rw [searchBehindComments, peekAt_of_drop h, Seam.elseAhead_cons 0 0]
      by_cases ht : t.kind = .comment
      · rw [if_pos ht, if_pos ht]
        exact ih (hts.tail (by simp [ht])) (drop_succ h) (Nat.le_of_succ_le_succ hr)
      · rw [if_neg ht, if_neg ht]
        exact ⟨i, rfl, by rw [peekAt_of_drop h]⟩

/-- Tokens are read, none of them the end of input, and the end of input is still ahead. -/
def Advances (c d : Cursor) : Prop :=
  ∃ read, read ≠ [] ∧ c.rest = read ++ d.rest ∧ (∀ t ∈ read, t.kind ≠ .eof) ∧ d.rest ≠ []

end Cursor

/-! ## 4. Token lists -/

/-- The last token of a list is its only end of input. -/
def Token.EndsOnce (ts : List Token) : Prop :=
  ∃ init last, ts = init ++ [last] ∧ last.kind = .eof ∧ ∀ t ∈ init, t.kind ≠ .eof

namespace Rule

variable {α : Type}

/-- A rule ends, in a list of tokens: with the budget of the list it gives a result or finds a fault
in the tokens, and no larger budget makes a difference. -/
def Ends (ts : List Token) (r : Nat → Rule α) (c : Cursor) : Prop :=
  ∀ k, budget ts ≤ k → Decided (r (budget ts)) (r k) c

variable {ts : List Token} {c : Cursor}

/-- A budget of ten for each token is enough wherever a rule needs at most ten more than that. -/
theorem ends_of_settles {extra : Nat} {r : Nat → Rule α}
    (h : ∀ {n k : Nat}, n ≤ k → Settles extra n k r) (he : extra ≤ 10) (hc : c.Ended)
    (hts : c.rest <:+ ts) : Ends ts r c := by
  intro k hk
  have hle := hts.length_le
  refine h hk hc ?_
  rw [budget]
  omega

/-- What reads something advances. -/
theorem advances_of_reads {p : Kind → Prop} {d : Cursor} (h : c.Reads p d)
    (hts : Token.EndsOnce ts) (hc : c.rest <:+ ts) : c.Advances d := by
  obtain ⟨read, hread⟩ := h.suffix
  refine ⟨read, ?_, hread.symm, fun t ht => ?_, h.ended.ne_nil⟩
  · rintro rfl
    have hlt := h.shorter
    rw [← hread] at hlt
    exact absurd hlt (Nat.lt_irrefl _)
  · -- What is read is in front of the last token.
    obtain ⟨init, last, rfl, -, hinit⟩ := hts
    obtain ⟨before, hbefore⟩ := hc
    obtain ⟨ds, x, hd⟩ := List.eq_nil_or_concat d.rest |>.resolve_left h.ended.ne_nil
    rw [← hread, hd, List.concat_eq_append, ← List.append_assoc, ← List.append_assoc] at hbefore
    have hfront := (List.append_inj' hbefore rfl).1
    refine hinit t ?_
    rw [← hfront]
    simp [ht]

end Rule

/-- An end of a list that ends once, unless it is empty, ends once too. -/
theorem Token.EndsOnce.ended {ts : List Token} (h : EndsOnce ts) {c : Cursor} (hc : c.rest <:+ ts)
    (hne : c.rest ≠ []) : c.Ended := by
  obtain ⟨init, last, rfl, hlast, -⟩ := h
  obtain ⟨before, hbefore⟩ := hc
  refine ⟨⟨last, ?_, hlast⟩, fun _ _ => trivial⟩
  have h := congrArg List.getLast? hbefore
  rw [List.getLast?_append_of_ne_nil _ hne, List.getLast?_concat] at h
  exact h

namespace Rule

/-- **Every reading of tokens ends.** In a list of tokens whose last one is its only end of input,
documents and expressions are read to a result or to a fault of the tokens. Wherever in the list a
statement or an expression is read, tokens are read and the end of input is not among them. And from
everywhere the loops are over: those of the rules, which give a result or find a fault, and those
that only look ahead, in as many rounds as tokens are ahead. -/
theorem reading_ends {ts : List Token} (hts : Token.EndsOnce ts) :
    Ends ts document (.ofTokens ts) ∧ Ends ts loneExpression (.ofTokens ts) ∧
    ∀ c : Cursor, c.rest <:+ ts → c.rest ≠ [] →
      (∀ n t d, (statement n).Gives c t d ∨ (expression n).Gives c t d → c.Advances d) ∧
      Ends ts statement c ∧ Ends ts expression c ∧
      (∀ context, Ends ts (body · context) c ∧ Ends ts (bodyItems · context) c) ∧
      Ends ts pipelineItems c ∧ (∀ close context, Ends ts (items · close context) c) ∧
      (∀ sign cmd args dir, Ends ts (execArguments · sign cmd args dir) c) ∧
      (∀ limit, Ends ts (moreValues · limit) c) ∧ Ends ts elseChain c ∧
      ∀ rounds, c.rest.length ≤ rounds →
        c.searchTargets rounds 0 = some ((targetList? c.rest).isSome &&
          decide ((c.peekAt 1).kind ≠ .assign)) ∧
        ∃ j, c.searchBehindComments rounds 0 = some j ∧
          elseAhead c = ((c.peekAt j).kind = .elseIfWord || (c.peekAt j).kind = .elseWord) := by
  have hne : ts ≠ [] := by
    obtain ⟨init, last, rfl, -⟩ := hts
    simp
  have hstart : (ofTokens ts).Ended := hts.ended (c := ofTokens ts) List.suffix_rfl hne
  refine ⟨ends_of_settles settles_document (by decide) hstart List.suffix_rfl,
    ends_of_settles settles_loneExpression (by decide) hstart List.suffix_rfl, ?_⟩
  intro c hc hcne
  have hended : c.Ended := hts.ended hc hcne
  -- Every rule is decided with a budget of ten for each token and ten more.
  have hends : ∀ {α : Type} {extra : Nat} {r : Nat → Rule α}, extra ≤ 10 →
      (∀ {n k : Nat}, Settled n k → Settles extra n k r) → Ends ts r c :=
    fun he h => ends_of_settles (fun hle => h (settled hle)) he hended hc
  refine ⟨?_, hends (by decide) Settled.statement, hends (by decide) Settled.expression,
    fun context => ⟨hends (by decide) fun S => S.body, hends (by decide) fun S => S.bodyItems⟩,
    hends (by decide) Settled.pipelineItems,
    fun close context => hends (by decide) fun S => S.items,
    fun sign cmd args dir => hends (by decide) fun S => S.execArguments,
    fun limit => hends (by decide) fun S => S.moreValues, hends (by decide) Settled.elseChain,
    fun rounds hr => ⟨?_, ?_⟩⟩
  · rintro n t d (h | h)
    · exact advances_of_reads ((forward n).statement hended h) hts hc
    · exact advances_of_reads ((forward n).expression hended h) hts hc
  · have h := searchTargets_eq (c := c) (i := 0) hended rfl hr
    simpa using h
  · exact exists_searchBehindComments (c := c) (i := 0) hended rfl hr

/-- A block that is cut off in the middle of a list of targets. -/
theorem reading_ends_unclosed :
    let ts : List Token :=
      [⟨.ident, "a", ⟨1, 1⟩, none, none⟩, ⟨.lbrace, "\x7b", ⟨1, 3⟩, none, none⟩,
        ⟨.ident, "b", ⟨1, 5⟩, none, none⟩, ⟨.comma, ",", ⟨1, 6⟩, none, none⟩, .endOfInput ⟨1, 7⟩]
    Token.EndsOnce ts ∧
      ∀ k, 60 ≤ k → document k (.ofTokens ts) = .error ⟨.unclosed "for block body", ⟨1, 7⟩⟩ := by
  intro ts
  have hts : Token.EndsOnce ts := by
    refine ⟨[⟨.ident, "a", ⟨1, 1⟩, none, none⟩, ⟨.lbrace, "\x7b", ⟨1, 3⟩, none, none⟩,
      ⟨.ident, "b", ⟨1, 5⟩, none, none⟩, ⟨.comma, ",", ⟨1, 6⟩, none, none⟩], .endOfInput ⟨1, 7⟩,
      rfl, rfl, ?_⟩
    simp
  refine ⟨hts, fun k hk => ?_⟩
  exact ((reading_ends hts).1 k hk).same.trans rfl

end Rule

end BlockConfig
