import BlockConfig.Proofs.Grammar.Spelling

/-!
Spelled values are read back.

The tokens of a value, with more tokens behind them, are read as that value up to its positions, and
the reader stops where the value ends (`ReadsValue`). What follows has to let go of it: behind a
value no parenthesis may stand and nothing may pull at it more strongly than its grip (`Admits`).
What it takes to read back the statements that some values hold is left open here: each kind of value
has a lemma that supposes it of the nodes below.

The proof goes by induction on the tree. Operators and members associate to the left, against the
direction in which the rules run, so for them the statement is about the rule that goes on
afterwards: reading `l op r …` is what `climb` makes of `op r …` once `l` has been read. A budget of
ten for each token is enough, because no chain of rules that leads to the next token is longer.
-/

set_option autoImplicit false

namespace BlockConfig

/-! ## 1. Cursors inside spelled tokens -/

/-- The line of the last of some tokens, and `line` if there is none. -/
def endLine (line : Nat) (ts : List Token) : Nat :=
  ts.foldl (fun _ t => t.pos.line) line

@[simp] theorem endLine_nil (line : Nat) : endLine line [] = line := rfl

@[simp] theorem endLine_cons (line : Nat) (t : Token) (ts : List Token) :
    endLine line (t :: ts) = endLine t.pos.line ts := rfl

@[simp] theorem endLine_append (line : Nat) (a b : List Token) :
    endLine line (a ++ b) = endLine (endLine line a) b :=
  List.foldl_append

/-- What has been read ends on the line of its last token. -/
theorem endLine_of_getLast? {ts : List Token} {t : Token} (h : ts.getLast? = some t) (line : Nat) :
    endLine line ts = t.pos.line := by
  obtain ⟨a, rfl⟩ := List.getLast?_eq_some_iff.1 h
  simp

namespace Cursor

@[simp] theorem peekAt_zero_cons (line : Nat) (t : Token) (ts : List Token) :
    peekAt ⟨line, t :: ts⟩ 0 = t := rfl

@[simp] theorem peekAt_one_cons (line : Nat) (t u : Token) (ts : List Token) :
    peekAt ⟨line, t :: u :: ts⟩ 1 = u := rfl

@[simp] theorem peekAt_two_cons (line : Nat) (t u v : Token) (ts : List Token) :
    peekAt ⟨line, t :: u :: v :: ts⟩ 2 = v := rfl

/-- Passing a token that is not the last one. -/
theorem skip_cons {line : Nat} {t : Token} {ts : List Token} (h : ts ≠ []) :
    skip ⟨line, t :: ts⟩ = ⟨t.pos.line, ts⟩ := by
  cases ts with
  | nil => exact absurd rfl h
  | cons u ts => rfl

@[simp] theorem skip_cons_cons (line : Nat) (t u : Token) (ts : List Token) :
    skip ⟨line, t :: u :: ts⟩ = ⟨t.pos.line, u :: ts⟩ := rfl

@[simp] theorem skip_append_cons (line : Nat) (t u : Token) (a ts : List Token) :
    skip ⟨line, t :: (a ++ u :: ts)⟩ = ⟨t.pos.line, a ++ u :: ts⟩ :=
  skip_cons (by simp)

/-- Nothing is passed if the token ahead is of another kind. -/
theorem skipKinds_of_not {p : Kind → Bool} {line : Nat} {t : Token} {ts : List Token}
    (h : p t.kind = false) : skipKinds p line (t :: ts) = ⟨line, t :: ts⟩ := by
  cases ts with
  | nil => rfl
  | cons u ts => simp [skipKinds, h]

theorem skipComments_of_not {line : Nat} {t : Token} {ts : List Token} (h : t.kind ≠ .comment) :
    skipComments ⟨line, t :: ts⟩ = ⟨line, t :: ts⟩ :=
  skipKinds_of_not (by simpa using h)

/-- In front of a token that separates nothing there is nothing to pass. -/
theorem skipSeparators_of_not {line : Nat} {t : Token} {ts : List Token}
    (h : t.kind ≠ .semicolon ∧ t.kind ≠ .comma) :
    skipSeparators ⟨line, t :: ts⟩ = ⟨line, t :: ts⟩ :=
  skipKinds_of_not (by simpa using h)

end Cursor

/-! ## 2. What may follow -/

/-- Behind a value that ends on a line: no parenthesis, and nothing that pulls at the value more
strongly than `grip`. -/
def Admits (grip line : Nat) (u : Token) (us : List Token) : Prop :=
  u.kind ≠ .lparen ∧ Cursor.pull ⟨line, u :: us⟩ ≤ grip

section Admits

variable {g line : Nat} {u : Token} {us : List Token}

/-- What is held together more strongly is admitted in front of the same tokens. -/
theorem Admits.mono {g' : Nat} (h : Admits g line u us) (hg : g ≤ g') : Admits g' line u us :=
  ⟨h.1, Nat.le_trans h.2 hg⟩

/-- Something that does not hold together like an operand is never followed by a dot. -/
theorem Admits.not_dot (h : Admits g line u us) (hg : g < 5) : u.kind ≠ .dot := by
  intro hk
  have h1 := h.2
  have h2 : Cursor.pull ⟨line, u :: us⟩ = 5 := Cursor.pull_of_dot hk
  omega

/-- What ends in a choice is never followed by the mark of another, since that mark would have been read as
part of it. -/
theorem Admits.not_question (h : Admits 0 line u us) : u.kind ≠ .question := by
  intro hk
  have h1 := h.2
  have h2 : Cursor.pull ⟨line, u :: us⟩ = 1 := Cursor.pull_of_question hk
  omega

/-- An operator that follows is no stronger than the grip. -/
theorem Admits.strength_le (h : Admits g line u us) {op : BinaryOp}
    (ho : op ∈ Cursor.operator? ⟨line, u :: us⟩) : op.strength ≤ g := by
  rw [← Cursor.pull_of_operator ho]
  exact h.2

end Admits

/-- The tokens that pull at nothing, wherever they stand. -/
def Kind.isQuiet : Kind → Bool
  | comma | rparen | rbracket | rbrace | lbrace | colon | semicolon | assign | atSign | arrow
  | comment | ifWord | elseIfWord | elseWord | eof | str => true
  | _ => false

/-- A quiet token pulls at nothing. -/
theorem Cursor.pull_of_isQuiet {line : Nat} {u : Token} {us : List Token}
    (h : u.kind.isQuiet = true) : Cursor.pull ⟨line, u :: us⟩ = 0 := by
  have ho : BinaryOp.ofKind? u.kind = none := by
    revert h
    cases u.kind <;> decide
  have hd : u.kind ≠ .dot ∧ u.kind ≠ .question ∧ u.kind ≠ .ident := by
    revert h
    cases u.kind <;> decide
  simp [pull, operator?, hd, ho]

/-- Everything may stand in front of a quiet token. -/
theorem admits_of_isQuiet {grip line : Nat} {u : Token} {us : List Token}
    (h : u.kind.isQuiet = true) : Admits grip line u us := by
  refine ⟨?_, ?_⟩
  · intro hk
    rw [hk] at h
    exact absurd h (by decide)
  · rw [Cursor.pull_of_isQuiet h]
    exact Nat.zero_le grip

/-! ## 3. What is to be proved -/

namespace Node

/-- An operand without operators at its top is read back by the rule for operands. -/
def ReadsOperand (n : Node) : Prop :=
  ∀ {ts : List Token} {f : Nat} (line : Nat) (u : Token) (us : List Token),
    n.Spells Token.SameLine ts → 10 * ts.length + 6 ≤ f → Admits n.grip (endLine line ts) u us →
    ∃ n', n'.unplaced = n.unplaced ∧
      (Rule.primary f).Gives ⟨line, ts ++ u :: us⟩ n' ⟨endLine line ts, u :: us⟩

/-- An operand with members is read back up to where further members may follow. -/
def ReadsMembers (n : Node) : Prop :=
  ∀ {ts : List Token} {f : Nat} (line : Nat) (u : Token) (us : List Token),
    n.Spells Token.SameLine ts → 10 * ts.length + 7 ≤ f → Admits n.grip (endLine line ts) u us →
    ∃ n' f', n'.unplaced = n.unplaced ∧ f ≤ f' + ts.length ∧ ∀ t d,
      (Rule.members f' n').Gives ⟨endLine line ts, u :: us⟩ t d →
        (Rule.unary f).Gives ⟨line, ts ++ u :: us⟩ t d

/-- An operand with operators in front is read back. -/
def ReadsUnary (n : Node) : Prop :=
  ∀ {ts : List Token} {f : Nat} (line : Nat) (u : Token) (us : List Token),
    n.Spells Token.SameLine ts → 10 * ts.length + 7 ≤ f → Admits n.grip (endLine line ts) u us →
    u.kind ≠ .dot → ∃ n', n'.unplaced = n.unplaced ∧
      (Rule.unary f).Gives ⟨line, ts ++ u :: us⟩ n' ⟨endLine line ts, u :: us⟩

/-- Operands joined by operators of at least a given strength are read back up to where further
operators may follow. -/
def ReadsBinary (n : Node) (least : Nat) : Prop :=
  ∀ {ts : List Token} {f : Nat} (line : Nat) (u : Token) (us : List Token),
    n.Spells Token.SameLine ts → 10 * ts.length + 8 ≤ f → Admits n.grip (endLine line ts) u us →
    u.kind ≠ .dot → ∃ n' f', n'.unplaced = n.unplaced ∧ f ≤ f' + ts.length ∧ ∀ t d,
      (Rule.climb f' least n').Gives ⟨endLine line ts, u :: us⟩ t d →
        (Rule.binary f least).Gives ⟨line, ts ++ u :: us⟩ t d

/-- A whole expression is read back. -/
def ReadsExpression (n : Node) : Prop :=
  ∀ {ts : List Token} {f : Nat} (line : Nat) (u : Token) (us : List Token),
    n.Spells Token.SameLine ts → 10 * ts.length + 9 ≤ f → Admits 0 (endLine line ts) u us →
    ∃ n', n'.unplaced = n.unplaced ∧
      (Rule.expression f).Gives ⟨line, ts ++ u :: us⟩ n' ⟨endLine line ts, u :: us⟩

/-- A value is read back by every rule that it is strong enough for. -/
structure ReadsValue (n : Node) : Prop where
  members : n.rank = 5 → n.ReadsMembers
  unary : 4 ≤ n.rank → n.ReadsUnary
  binary : ∀ least, 1 ≤ least → least ≤ n.rank → least ≤ 4 → n.ReadsBinary least
  expression : n.ReadsExpression

/-! ## 4. From one rule to the next -/

variable {n : Node}

/-- An expression is spelled with at least one token. -/
theorem ne_nil_of_spells_value (hf : Everywhere FitsHere n) (hv : n.isValue = true)
    {near : Token → Token → Prop} {ts : List Token} (h : n.Spells near ts) : 0 < ts.length := by
  obtain ⟨t, rest, rfl, -⟩ := head_of_spells_value hf hv h
  simp

/-- An operand that is read back as such is read back with its members, of which there are none. -/
theorem readsMembers_of_operand (hf : Everywhere FitsHere n) (hv : n.isValue = true)
    (hr : n.rank = 5) (h : n.ReadsOperand) : n.ReadsMembers := by
  intro ts f line u us hs hb ha
  obtain ⟨f, rfl⟩ := Nat.exists_eq_succ_of_ne_zero (n := f) (by omega)
  obtain ⟨n', hn', hg⟩ := h line u us hs (by omega : 10 * ts.length + 6 ≤ f) ha
  obtain ⟨x, rest, rfl, hx⟩ := head_of_spells_value hf hv hs
  refine ⟨n', f, hn', by simp, fun t d hm => (Rule.gives_unary _ _ _ _).2 (.inr ⟨?_, n', _, hg, hm⟩)⟩
  rcases hx with hx | ⟨hx, -⟩
  · exact Kind.not_prefix_of_startsOperand hx
  · omega

/-- What begins with no prefix operator is read back by the rule for operands. -/
theorem readsUnary_of_members (h : n.ReadsMembers) : n.ReadsUnary := by
  intro ts f line u us hs hb ha hd
  obtain ⟨n', f', hn', hf', hg⟩ := h line u us hs hb ha
  obtain ⟨f', rfl⟩ := Nat.exists_eq_succ_of_ne_zero (n := f') (by omega)
  exact ⟨n', hn', hg _ _ ((Rule.gives_members _ _ _ _ _).2 (.inl ⟨hd, rfl, rfl⟩))⟩

/-- It is read back with operators behind it too, because whatever is admitted there does not bind as
strongly as asked for. -/
theorem readsBinary_of_unary (hf : Everywhere FitsHere n) (hv : n.isValue = true)
    (h : n.ReadsUnary) (least : Nat) : n.ReadsBinary least := by
  intro ts f line u us hs hb ha hd
  obtain ⟨f, rfl⟩ := Nat.exists_eq_succ_of_ne_zero (n := f) (by omega)
  obtain ⟨n', hn', hg⟩ := h line u us hs (by omega : 10 * ts.length + 7 ≤ f) ha hd
  have := ne_nil_of_spells_value hf hv hs
  exact ⟨n', f, hn', by omega, fun t d hc => (Rule.gives_binary _ _ _ _ _).2 ⟨n', _, hg, hc⟩⟩

/-- And it is read back as an expression, as no mark of a choice is admitted behind it. -/
theorem readsExpression_of_binary (h : n.ReadsBinary 1) : n.ReadsExpression := by
  intro ts f line u us hs hb ha
  obtain ⟨f, rfl⟩ := Nat.exists_eq_succ_of_ne_zero (n := f) (by omega)
  obtain ⟨n', f', hn', hf', hg⟩ := h line u us hs (by omega : 10 * ts.length + 8 ≤ f)
    (ha.mono (Nat.zero_le _)) (ha.not_dot (by decide))
  obtain ⟨f', rfl⟩ := Nat.exists_eq_succ_of_ne_zero (n := f') (by omega)
  refine ⟨n', hn', (Rule.gives_expression _ _ _ _).2 ⟨n', _, hg _ _ ?_, .inl ⟨?_, rfl, rfl⟩⟩⟩
  · refine (Rule.gives_climb _ _ _ _ _ _).2 (.inl ⟨fun op ho => ?_, rfl, rfl⟩)
    exact Nat.lt_succ_of_le (ha.strength_le ho)
  · exact ha.not_question

/-- For an expression without operators, these four ways of being read back are one. -/
theorem readsValue_of_members (hf : Everywhere FitsHere n) (hv : n.isValue = true)
    (h : n.ReadsMembers) : n.ReadsValue where
  members _ := h
  unary _ := readsUnary_of_members h
  binary least _ _ _ := readsBinary_of_unary hf hv (readsUnary_of_members h) least
  expression := readsExpression_of_binary (readsBinary_of_unary hf hv (readsUnary_of_members h) 1)

/-! ## 5. Operators and members -/

/-- A token that is written as an operator is seen as one, since it stands on the line on which the operand
in front of it has ended. -/
theorem operator?_of_operates {a : List Token} {t : Token} {op : BinaryOp}
    (h : t.Operates Token.SameLine a op) (hn : 0 < a.length) (line : Nat) (us : List Token) :
    Cursor.operator? ⟨endLine line a, t :: us⟩ = some op := by
  rcases h with h | ⟨hk, ho, hl⟩
  · have hk : t.kind ≠ .ident := fun hk => by simp [hk, BinaryOp.ofKind?] at h
    simp [Cursor.operator?, hk, h]
  · obtain ⟨x, hx⟩ : ∃ x, a.getLast? = some x :=
      ⟨_, List.getLast?_eq_some_getLast (List.ne_nil_of_length_pos hn)⟩
    have hl : t.pos.line = endLine line a := by
      rw [endLine_of_getLast? hx]
      exact hl x hx
    simp [Cursor.operator?, hk, hl, ho]

/-- A member is read back if what it is a member of is. The loop over members has read the left side by then
and goes on with the dot. -/
theorem readsValue_member {left : Node} {name : String}
    (hf : Everywhere FitsHere (member left name)) (h : left.ReadsValue) :
    (member left name).ReadsValue := by
  have hl : left.rank = 5 := by
    have h1 := hf.here.2
    have h2 := left.grip_le_rank
    have h3 := left.rank_le
    omega
  refine readsValue_of_members hf rfl ?_
  intro ts f line u us hs hb _
  obtain ⟨a, dot, t, rfl, ha, hd, ht⟩ := hs
  simp only [List.length_append, List.length_cons, List.length_nil] at hb
  have hadmits : Admits left.grip (endLine line a) dot (t :: u :: us) := by
    refine ⟨by simp [hd], ?_⟩
    have hp : Cursor.pull ⟨endLine line a, dot :: t :: u :: us⟩ = 5 := Cursor.pull_of_dot hd
    rw [hp]
    exact hf.here.2
  obtain ⟨left', f', hn', hf', hg⟩ := h.members hl line dot (t :: u :: us) (f := f) ha (by omega) hadmits
  obtain ⟨f', rfl⟩ := Nat.exists_eq_succ_of_ne_zero (n := f') (by omega)
  refine ⟨.member left' name, f', ?_, ?_, fun t' d hm => ?_⟩
  · simp [unplaced, hn']
  · simp only [List.length_append, List.length_cons, List.length_nil]
    omega
  · have hm' := hg t' d ((Rule.gives_members _ _ _ _ _).2 (.inr ⟨hd, ht.1, ?_⟩))
    · simpa using hm'
    · simpa [ht.2] using hm

/-- A prefix operation is read back if its operand is. The operand holds together against whatever follows,
as the whole does. -/
theorem readsValue_unary {op : UnaryOp} {operand : Node}
    (hf : Everywhere FitsHere (Node.unary op operand)) (h : operand.ReadsValue) :
    (Node.unary op operand).ReadsValue := by
  have hu : (Node.unary op operand).ReadsUnary := by
    intro ts f line u us hs hb ha hd
    obtain ⟨t, a, rfl, ht, hs⟩ := hs
    simp only [List.length_cons] at hb
    obtain ⟨f, rfl⟩ := Nat.exists_eq_succ_of_ne_zero (n := f) (by omega)
    obtain ⟨operand', hn', hg⟩ := h.unary hf.here.2 t.pos.line u us (f := f) hs (by omega)
      (ha.mono (Nat.min_le_right _ _)) hd
    refine ⟨.unary op operand', by simp [unplaced, hn'], (Rule.gives_unary _ _ _ _).2
      (.inl ⟨op, operand', ht, ?_, rfl⟩)⟩
    simpa using hg
  exact {
    members := fun hr => absurd hr (by simp [rank])
    unary := fun _ => hu
    binary := fun least _ _ _ => readsBinary_of_unary hf rfl hu least
    expression := readsExpression_of_binary (readsBinary_of_unary hf rfl hu 1) }

/-- An operation is read back if both operands are. The left one is read first, up to the operator; in front
of it the loop is in the state in which it goes on with the right one. That the loop does not take the
operator earlier, or stop at it, is what the shape of the tree says. -/
theorem readsValue_binary {op : BinaryOp} {left right : Node}
    (hf : Everywhere FitsHere (Node.binary op left right)) (hl : left.ReadsValue)
    (hr : right.ReadsValue) : (Node.binary op left right).ReadsValue := by
  obtain ⟨hlv, hrv, hlg, hrr⟩ := hf.here
  have h3 := op.strength_lt
  have hlr := left.grip_le_rank
  have hb : ∀ least, 1 ≤ least → least ≤ op.strength → (Node.binary op left right).ReadsBinary least := by
    intro least h1 hle ts f line u us hs hb ha hd
    obtain ⟨a, t, b, rfl, hsa, ht, hsb⟩ := hs
    have hna := ne_nil_of_spells_value (hf.child left (by simp [children])) hlv hsa
    have ho := operator?_of_operates ht hna line (b ++ u :: us)
    simp only [List.length_append, List.length_cons] at hb
    simp only [endLine_append, endLine_cons] at ha
    have hdot : t.kind ≠ .dot := by
      intro hk
      have := Cursor.operator?_of_dot (c := ⟨endLine line a, t :: (b ++ u :: us)⟩) hk
      rw [ho] at this
      exact absurd this (by simp)
    -- The operator does not pull the end of the left operand away.
    have hadmits : Admits left.grip (endLine line a) t (b ++ u :: us) := by
      refine ⟨?_, ?_⟩
      · intro hk
        rcases ht with ht | ⟨ht, -⟩
        · simp [hk, BinaryOp.ofKind?] at ht
        · simp [hk] at ht
      · rw [Cursor.pull_of_operator ho]
        exact hlg
    obtain ⟨left', fl, hln, hfl, hlg'⟩ := hl.binary least h1 (by omega) (by omega) line t
      (b ++ u :: us) (f := f) hsa (by omega) hadmits hdot
    obtain ⟨fl, rfl⟩ := Nat.exists_eq_succ_of_ne_zero (n := fl) (by omega)
    obtain ⟨right', fr, hrn, hfr, hrg'⟩ := hr.binary (op.strength + 1) (by omega) hrr (by omega)
      t.pos.line u us (f := fl) hsb (by omega) (ha.mono (Nat.min_le_right _ _)) hd
    obtain ⟨fr, rfl⟩ := Nat.exists_eq_succ_of_ne_zero (n := fr) (by omega)
    have hright := hrg' _ _ ((Rule.gives_climb fr _ right' _ _ _).2 (.inl ⟨fun o ho =>
      Nat.lt_succ_of_le (Nat.le_trans (ha.strength_le ho) (Nat.min_le_left _ _)), rfl, rfl⟩))
    refine ⟨.binary op left' right', fl, by simp [unplaced, hln, hrn], ?_, fun t' d hc => ?_⟩
    · simp only [List.length_append, List.length_cons]
      omega
    · have hm := hlg' t' d ((Rule.gives_climb _ _ _ _ _ _).2 (.inr ⟨op, right', _, ho, hle,
        by simpa using hright, by simpa using hc⟩))
      simpa using hm
  exact {
    members := fun h => by
      have : op.strength = 5 := h
      omega
    unary := fun h => by
      have : 4 ≤ op.strength := h
      omega
    binary := fun least h1 h _ => hb least h1 h
    expression := readsExpression_of_binary (hb 1 (Nat.le_refl 1) op.strength_pos) }

/-- A choice is read back if its three parts are. Its condition ends at the mark, which no condition admits
as a part of it. -/
theorem readsValue_ternary {condition yes no : Node}
    (hf : Everywhere FitsHere (ternary condition yes no)) (hc : condition.ReadsValue)
    (hy : yes.ReadsValue) (hn : no.ReadsValue) : (ternary condition yes no).ReadsValue := by
  obtain ⟨hcv, hyv, hnv, hcg⟩ := hf.here
  have he : (ternary condition yes no).ReadsExpression := by
    intro ts f line u us hs hb ha
    obtain ⟨a, q, b, colon, d, rfl, hsa, hq, hsb, hcolon, hsd⟩ := hs
    simp only [List.length_append, List.length_cons] at hb
    simp only [endLine_append, endLine_cons] at ha
    have hna := ne_nil_of_spells_value (hf.child condition (by simp [children])) hcv hsa
    obtain ⟨f, rfl⟩ := Nat.exists_eq_succ_of_ne_zero (n := f) (by omega)
    have hadmits : Admits condition.grip (endLine line a) q (b ++ colon :: (d ++ u :: us)) := by
      refine ⟨by simp [hq], ?_⟩
      have hp : Cursor.pull ⟨endLine line a, q :: (b ++ colon :: (d ++ u :: us))⟩ = 1 :=
        Cursor.pull_of_question hq
      rw [hp]
      exact hcg
    obtain ⟨condition', fc, hcn, hfc, hcg'⟩ := hc.binary 1 (Nat.le_refl 1)
      (Nat.le_trans hcg condition.grip_le_rank) (by decide) line q (b ++ colon :: (d ++ u :: us))
      (f := f) hsa (by omega) hadmits (by simp [hq])
    obtain ⟨fc, rfl⟩ := Nat.exists_eq_succ_of_ne_zero (n := fc) (by omega)
    -- The mark is no operator, so climbing stops in front of it with the condition.
    have hnone : Cursor.operator? ⟨endLine line a, q :: (b ++ colon :: (d ++ u :: us))⟩ = none :=
      Cursor.operator?_of_question hq
    have hcond := hcg' _ _ ((Rule.gives_climb fc 1 condition' _ _ _).2
      (.inl ⟨fun o ho => absurd (hnone.symm.trans ho) (by simp), rfl, rfl⟩))
    obtain ⟨yes', hyn, hyg⟩ := hy.expression q.pos.line colon (d ++ u :: us) (f := f)
      hsb (by omega) (admits_of_isQuiet (by rw [hcolon]; rfl))
    obtain ⟨no', hnn, hng⟩ := hn.expression colon.pos.line u us (f := f) hsd (by omega) ha
    refine ⟨.ternary condition' yes' no', by simp [unplaced, hcn, hyn, hnn], ?_⟩
    simp only [List.append_assoc, List.cons_append, endLine_append, endLine_cons]
    refine (Rule.gives_expression _ _ _ _).2 ⟨condition', _, hcond, .inr ⟨hq, yes',
      ⟨endLine q.pos.line b, colon :: (d ++ u :: us)⟩, no', ?_, hcolon, ?_, rfl⟩⟩
    · simpa using hyg
    · simpa using hng
  -- A choice is no operand of an operator without parentheses.
  exact {
    members := fun h => absurd h (by simp [rank])
    unary := fun h => absurd h (by simp [rank])
    binary := fun least h1 h => absurd h (by simp only [rank]; omega)
    expression := he }

/-! ## 6. Operands -/

/-- A literal is one token, and the token determines it. -/
theorem readsOperand_literal (v : Literal) : (literal v).ReadsOperand := by
  intro ts f line u us hs hb _
  obtain ⟨t, rfl, hm⟩ := hs
  obtain ⟨f, rfl⟩ := Nat.exists_eq_succ_of_ne_zero (n := f) (by omega)
  refine ⟨literal v, rfl, (Rule.gives_primary _ _ _ _).2 ?_⟩
  rcases hm with ⟨hk, hv⟩ | ⟨hk, rfl⟩ | ⟨hk, rfl⟩ | ⟨hk, rfl⟩ | ⟨hk, hl, rfl⟩
  · exact Rule.Operand.number (c := ⟨line, t :: u :: us⟩) hk hv
  · exact Rule.Operand.str (c := ⟨line, t :: u :: us⟩) hk
  · exact Rule.Operand.heredoc (c := ⟨line, t :: u :: us⟩) hk
  · exact Rule.Operand.bool (c := ⟨line, t :: u :: us⟩) hk
  · exact Rule.Operand.null (c := ⟨line, t :: u :: us⟩) hk hl

theorem readsOperand_ident (name : String) : (ident name).ReadsOperand := by
  intro ts f line u us hs hb ha
  obtain ⟨t, rfl, hw, hn⟩ := hs
  obtain ⟨f, rfl⟩ := Nat.exists_eq_succ_of_ne_zero (n := f) (by omega)
  obtain rfl := hw.2
  exact ⟨_, rfl, (Rule.gives_primary _ _ _ _).2
    (Rule.Operand.ident (c := ⟨line, t :: u :: us⟩) hw.1 hn fun h => ha.1 h.1)⟩

/-- A reference to the environment is one token as well. Its default, if it has one, stands in the text of
that token. -/
theorem readsOperand_envRef (name : String) (default : Option String) :
    (envRef name default).ReadsOperand := by
  intro ts f line u us hs hb _
  obtain ⟨t, rfl, hk, he⟩ := hs
  obtain ⟨f, rfl⟩ := Nat.exists_eq_succ_of_ne_zero (n := f) (by omega)
  refine ⟨Rule.envReference t.literal, by rw [he], (Rule.gives_primary _ _ _ _).2 ?_⟩
  exact Rule.Operand.envRef (c := ⟨line, t :: u :: us⟩) hk

/-- In parentheses anything is read back that is read back as an expression. -/
theorem readsOperand_group {inner : Node} (h : inner.ReadsExpression) :
    (group inner).ReadsOperand := by
  intro ts f line u us hs hb ha
  obtain ⟨l, a, r, rfl, hl, hs, hr⟩ := hs
  simp only [List.length_append, List.length_cons, List.length_nil] at hb
  obtain ⟨f, rfl⟩ := Nat.exists_eq_succ_of_ne_zero (n := f) (by omega)
  obtain ⟨inner', hn', hg⟩ := h l.pos.line r (u :: us) (f := f) hs (by omega)
    (admits_of_isQuiet (by rw [hr]; rfl))
  refine ⟨.group inner', by simp [unplaced, hn'], (Rule.gives_primary _ _ _ _).2 ?_⟩
  have ho := Rule.Operand.group (n := f) (c := ⟨line, l :: (a ++ r :: u :: us)⟩)
    (e := ⟨endLine l.pos.line a, r :: u :: us⟩) hl (by simpa using hg) hr
  simpa using ho

/-- Values with commas between them are read back, and the bracket behind them. -/
theorem reads_items {close : Kind} (hc : close = .rparen ∨ close = .rbracket) (context : String)
    {ns : List Node} (ih : ∀ m ∈ ns, Everywhere FitsHere m ∧ m.isValue = true ∧ m.ReadsExpression)
    {ts : List Token} {f : Nat} (line : Nat) (u : Token) (us : List Token)
    (hs : SpellsItems Token.SameLine close ns ts) (hb : 10 * ts.length ≤ f) :
    ∃ ns', unplacedAll ns' = unplacedAll ns ∧ (Rule.items f close context).Gives
      ⟨line, ts ++ u :: us⟩ ns' ⟨endLine line ts, u :: us⟩ := by
  have hq : close.isQuiet = true ∧ close ≠ .comment ∧ close ≠ .comma := by
    rcases hc with rfl | rfl <;> decide
  induction ns generalizing ts f line with
  | nil =>
    obtain ⟨r, rfl, hr⟩ := hs
    obtain ⟨f, rfl⟩ := Nat.exists_eq_succ_of_ne_zero (n := f)
      (by simp only [List.length_cons, List.length_nil] at hb; omega)
    refine ⟨[], rfl, (Rule.gives_items _ _ _ _ _ _).2 (.inl ?_)⟩
    rw [List.singleton_append, Cursor.skipComments_of_not (by rw [hr]; exact hq.2.1)]
    exact ⟨hr, rfl, rfl⟩
  | cons n ns ihs =>
    obtain ⟨a, t, rest, rfl, ha, ht⟩ := hs
    obtain ⟨hf, hv, he⟩ := ih n (by simp)
    simp only [List.length_append, List.length_cons] at hb
    obtain ⟨f, rfl⟩ := Nat.exists_eq_succ_of_ne_zero (n := f) (by omega)
    -- Behind a value there is a comma or the bracket, and both let an expression end in front of them.
    have hquiet : t.kind.isQuiet = true ∧ t.kind ≠ .comment := by
      rcases ht with ⟨ht, -⟩ | ⟨ht, -⟩
      · rw [ht]
        decide
      · rw [ht]
        exact ⟨hq.1, hq.2.1⟩
    obtain ⟨n', hn', hg⟩ := he line t (rest ++ u :: us) (f := f) ha (by omega)
      (admits_of_isQuiet hquiet.1)
    obtain ⟨x, front, rfl, hx⟩ := head_of_spells_value hf hv ha
    -- A value begins with no comment, and not with the bracket, so the list is not over yet.
    have hfirst : x.kind ≠ .comment ∧ x.kind ≠ close := by
      have hx : x.kind.startsOperand = true ∨ UnaryOp.ofKind? x.kind ≠ none :=
        hx.imp id fun ⟨_, op, ho⟩ => by simp [ho]
      rcases hc with rfl | rfl <;> revert hx <;> cases x.kind <;> decide
    have hskip : ∀ l, Cursor.skipComments ⟨l, x :: front ++ t :: rest ++ u :: us⟩ =
        ⟨l, x :: front ++ t :: rest ++ u :: us⟩ := fun l => Cursor.skipComments_of_not hfirst.1
    have hskip' : ∀ l ts, Cursor.skipComments ⟨l, t :: ts⟩ = ⟨l, t :: ts⟩ :=
      fun l ts => Cursor.skipComments_of_not hquiet.2
    rcases ht with ⟨ht, hrest⟩ | ⟨ht, rfl, rfl⟩
    -- ih m (by simp [hm])) (f := f) t.pos.line hrest => A comma, and further values or the bracket
    -- right behind it.
    · obtain ⟨ns', hns', hgs⟩ := ihs (fun m hm => ih m (by simp [hm])) (f := f) t.pos.line hrest
        (by omega)
      refine ⟨n' :: ns', by simp [unplacedAll, hn', hns'], (Rule.gives_items _ _ _ _ _ _).2 (.inr ?_)⟩
      rw [hskip]
      refine ⟨hfirst.2, n', _, by simpa using hg, .inl ⟨?_, ns', ?_, rfl⟩⟩
      · rw [hskip']
        exact ht
      · rw [hskip', Cursor.skip_append_cons]
        simpa using hgs
    · refine ⟨[n'], by simp [unplacedAll, hn'], (Rule.gives_items _ _ _ _ _ _).2 (.inr ?_)⟩
      rw [hskip]
      refine ⟨hfirst.2, n', _, by simpa using hg, .inr ⟨?_, ?_, rfl, ?_⟩⟩
      · rw [hskip']
        exact ht ▸ hq.2.2
      · rw [hskip']
        exact ht
      · rw [hskip']
        simp

/-- A list is read back if its items are. -/
theorem readsOperand_list {items : List Node}
    (ih : ∀ m ∈ items, Everywhere FitsHere m ∧ m.isValue = true ∧ m.ReadsExpression) :
    (list items).ReadsOperand := by
  intro ts f line u us hs hb _
  obtain ⟨l, a, rfl, hl, hs⟩ := hs
  simp only [List.length_cons] at hb
  obtain ⟨f, rfl⟩ := Nat.exists_eq_succ_of_ne_zero (n := f) (by omega)
  obtain ⟨items', hi, hg⟩ := reads_items (.inr rfl) "to close list" ih l.pos.line u us (f := f) hs
    (by omega)
  refine ⟨.list items', by simp [unplaced, hi], (Rule.gives_primary _ _ _ _).2 ?_⟩
  exact Rule.Operand.list (c := ⟨line, l :: (a ++ u :: us)⟩) hl (by simpa using hg)

/-- A call is read back if its arguments are. Its bracket stands on the line of the name, so it is not taken
for a group. -/
theorem readsOperand_call {name : String} {args : List Node} {pos : Position}
    (ih : ∀ m ∈ args, Everywhere FitsHere m ∧ m.isValue = true ∧ m.ReadsExpression) :
    (call name args pos).ReadsOperand := by
  intro ts f line u us hs hb _
  obtain ⟨t, l, a, rfl, ht, hn, hl, hnear, hs⟩ := hs
  simp only [List.length_cons] at hb
  obtain ⟨f, rfl⟩ := Nat.exists_eq_succ_of_ne_zero (n := f) (by omega)
  obtain ⟨args', hi, hg⟩ := reads_items (.inl rfl) "to close call arguments" ih l.pos.line u us
    (f := f) hs (by omega)
  refine ⟨.call name args' t.pos, by simp [unplaced, hi], (Rule.gives_primary _ _ _ _).2 ?_⟩
  obtain rfl := ht.2
  exact Rule.Operand.call (c := ⟨line, t :: l :: (a ++ u :: us)⟩) ht.1 hn hl hnear
    (by simpa using hg)

end Node

end BlockConfig
