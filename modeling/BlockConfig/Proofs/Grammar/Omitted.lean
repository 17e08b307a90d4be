import BlockConfig.Proofs.Grammar.Gap

/-!
Readings without a comment.

What a rule reads from a token list it reads from the list without the omitted comment: the same
tree up to comments and positions, and the cursors behind it face each other again
(`Omission.Transfers`). There is one statement for each rule, and they are proved together by
induction on the budget (`Omission.transferred`).

A rule that ends with a token of its own cannot end differently on the other side. A rule that ends
where nothing more fits can, if it ends at the gap, since other tokens stand there. So such a rule
is told that what it has read is `Settled` there. Inside of a list or of `@exec` it is, because a
comma or a bracket follows; at the end of a statement it is because the document is `Quiet`.
-/

set_option autoImplicit false

namespace BlockConfig

open Cursor Rule Node Commented

namespace Omission

variable {α : Type} (o : Omission)

/-! ## 1. All rules at once -/

/-- What one rule reads with the comment another one reads without it, provided that they start and
end as required. -/
def Transfers (starts : Cursor → Cursor → Prop) (ends : Cursor → α → Cursor → Prop)
    (same : α → α → Prop) (n : Nat) (r r' : Nat → Rule α) : Prop :=
  ∀ {c : Cursor} {a : α} {d c' : Cursor}, starts c c' → (r n).Gives c a d → ends c a d →
    ∀ k, n ≤ k → ∃ a' d', (r' k).Gives c' a' d' ∧ same a a' ∧ o.Faces d d'

/-- A rule that ends with a token of its own may end anywhere. -/
def Anyhow (_ : Cursor) (_ : α) (_ : Cursor) : Prop :=
  True

/-- What was read is settled if it ends at the gap. -/
def EndsSettled (_ : Cursor) (_ : α) (d : Cursor) : Prop :=
  o.AtGap d → o.Settled d.line

/-- Cursors that meet off the gap. -/
def MeetsOff (c c' : Cursor) : Prop :=
  ¬o.AtGap c ∧ o.Meets c c'

/-- Cursors that meet where statements are looked for. -/
def MeetsStatements (c c' : Cursor) : Prop :=
  Begins o.tokens c.skipSeparators ∧ o.Meets c c'

/-- What all rules with budget `n` read is read without the comment. -/
structure Transferred (n : Nat) : Prop where
  expression : o.Transfers o.Meets o.EndsSettled SameTree n expression expression
  binary : ∀ {least : Nat},
    o.Transfers o.Meets o.EndsSettled SameTree n (binary · least) (binary · least)
  climb : ∀ {least : Nat} {left left' : Node}, SameTree left left' →
    o.Transfers o.Faces o.EndsSettled SameTree n (climb · least left) (climb · least left')
  unary : o.Transfers o.Meets o.EndsSettled SameTree n unary unary
  members : ∀ {left left' : Node}, SameTree left left' →
    o.Transfers o.Faces o.EndsSettled SameTree n (members · left) (members · left')
  primary : o.Transfers o.Meets o.EndsSettled SameTree n primary primary
  items : ∀ {close : Kind} {context : String}, close = .rparen ∨ close = .rbracket →
    o.Transfers o.Meets Anyhow SameValues n (items · close context) (items · close context)
  body : ∀ {context : String},
    o.Transfers o.Meets Anyhow SameStatements n (body · context) (body · context)
  bodyItems : ∀ {context : String},
    o.Transfers o.MeetsStatements Anyhow SameStatements n (bodyItems · context)
      (bodyItems · context)
  statement : o.Transfers (fun c c' => Begins o.tokens c ∧ o.MeetsOff c c')
    (fun _ _ d => o.Near d → o.Calm) SameTree n Rule.statement Rule.statement
  arrow : ∀ {relation : Option Relation},
    o.Transfers o.MeetsOff (fun _ _ d => o.AtGap d → o.Calm) SameTree n (arrow · relation)
      (arrow · relation)
  blockOrAssignment : o.Transfers o.MeetsOff
    (fun c t d => ¬o.GoesOn c t d ∧ (o.Near d → o.Calm)) SameTree n blockOrAssignment
    blockOrAssignment
  moreValues : ∀ {limit : Nat}, o.Transfers o.Faces (fun _ ns d => o.AtGap d →
      o.Settled d.line ∧
        (ns.length < limit → ((Cursor.mk d.line o.left).peekAt 0).kind ≠ .comma))
    SameValues n (moreValues · limit) (moreValues · limit)
  control : o.Transfers o.MeetsOff Anyhow SameBranches n control control
  elseChain : o.Transfers o.Faces Anyhow SameBranches n elseChain elseChain
  directive : o.Transfers o.Meets
    (fun _ t d => t.endsInValue = true → o.AtGap d → o.Settled d.line) SameTree n directive
    directive
  execArguments : ∀ {sign sign' : Token} {cmd cmd' args args' dir dir' : Option Node},
    SameOption cmd cmd' → SameOption args args' → SameOption dir dir' →
    o.Transfers o.Meets Anyhow SameTree n (execArguments · sign cmd args dir)
      (execArguments · sign' cmd' args' dir')
  moreExecArguments : ∀ {sign sign' : Token} {cmd cmd' args args' dir dir' : Option Node},
    SameOption cmd cmd' → SameOption args args' → SameOption dir dir' →
    o.Transfers o.Meets Anyhow SameTree n (moreExecArguments · sign cmd args dir)
      (moreExecArguments · sign' cmd' args' dir')
  pipelineItems : o.Transfers o.MeetsStatements Anyhow SameStatements n pipelineItems
    pipelineItems

variable {o}

theorem transferred_zero : o.Transferred 0 := by
  constructor <;> repeat intro
  all_goals
    rename_i h _ _ _
    exact absurd h (not_gives_exhausted _ _ _)

/-- It is enough to look at budgets that are not used up. -/
theorem Transfers.succ {starts : Cursor → Cursor → Prop} {ends : Cursor → α → Cursor → Prop}
    {same : α → α → Prop} {n : Nat} {r r' : Nat → Rule α}
    (h : ∀ {c : Cursor} {a : α} {d c' : Cursor}, starts c c' → (r (n + 1)).Gives c a d →
      ends c a d → ∀ k, n ≤ k → ∃ a' d', (r' (k + 1)).Gives c' a' d' ∧ same a a' ∧ o.Faces d d') :
    o.Transfers starts ends same (n + 1) r r' := by
  intro c a d c' hstart hr hend k hk
  obtain ⟨k, rfl⟩ : ∃ j, k = j + 1 := ⟨k - 1, by omega⟩
  exact h hstart hr hend k (Nat.le_of_succ_le_succ hk)

/-! ### Expressions -/

section Expressions

variable {n : Nat} (T : o.Transferred n)
include T

/-- A choice without the comment. If its condition ends at the comment, what stands behind is not the mark
of the choice, as the condition is complete there. -/
theorem transfers_expression :
    o.Transfers o.Meets o.EndsSettled SameTree (n + 1) expression expression := by
  apply Transfers.succ
  intro c t d c' hm h hend k hk
  obtain ⟨condition, e, hb, h⟩ := (gives_expression _ _ _ _).1 h
  rcases h with ⟨hq, rfl, rfl⟩ | ⟨hq, yes, e₁, no, hy, hcolon, hn, rfl⟩
  · obtain ⟨t', d', hb', ht, hd⟩ := T.binary hm hb hend k hk
    have hq' : (d'.peekAt 0).kind ≠ .question := fun h =>
      hq ((hd.kind_iff (fun hg => (hend hg).calm) rfl).2 h)
    exact ⟨t', d', (gives_expression _ _ _ _).2 ⟨t', d', hb', .inl ⟨hq', rfl, rfl⟩⟩, ht, hd⟩
  · -- The condition ends in front of a question mark and its first value in front of a colon.
    obtain ⟨condition', e', hb', hcondition, he⟩ := T.binary hm hb
      (fun hg => absurd hg (not_atGap_of_kind hq Kind.noConfusion)) k hk
    obtain ⟨twin, hes⟩ := he.step_of_kind hq Kind.noConfusion
    obtain ⟨yes', e₁', hy', hyes, he₁⟩ := T.expression hes.toMeets hy
      (fun hg => absurd hg (not_atGap_of_kind hcolon Kind.noConfusion)) k hk
    obtain ⟨twin₁, hes₁⟩ := he₁.step_of_kind hcolon Kind.noConfusion
    obtain ⟨no', d', hn', hno, hd⟩ := T.expression hes₁.toMeets hn hend k hk
    refine ⟨.ternary condition' yes' no', d', (gives_expression _ _ _ _).2 ⟨condition', e', hb',
      .inr ⟨twin.kind ▸ hq, yes', e₁', no', hy', twin₁.kind ▸ hcolon, hn', rfl⟩⟩, ?_, hd⟩
    simp only [SameTree, uncommented, unplaced] at hcondition hyes hno ⊢
    rw [hcondition, hyes, hno]

/-- Operands with operators between them. The first of them may be followed by the comment, and then the
loop ends on both sides. -/
theorem transfers_binary {least : Nat} :
    o.Transfers o.Meets o.EndsSettled SameTree (n + 1) (binary · least) (binary · least) := by
  apply Transfers.succ
  intro c t d c' hm h hend k hk
  obtain ⟨left, e, hu, hl⟩ := (gives_binary _ _ _ _ _).1 h
  have hsettled : o.EndsSettled c left e := by
    intro hg
    obtain rfl := climb_of_atGap hg hl
    exact hend hg
  obtain ⟨left', e', hu', hleft, he⟩ := T.unary hm hu hsettled k hk
  obtain ⟨t', d', hl', ht, hd⟩ := T.climb hleft he hl hend k hk
  exact ⟨t', d', (gives_binary _ _ _ _ _).2 ⟨left', e', hu', hl'⟩, ht, hd⟩

/-- The loop over operators. At the comment it has ended with the comment in place; that it ends without it
too is what it means for the line to be settled. -/
theorem transfers_climb {least : Nat} {left left' : Node} (hleft : SameTree left left') :
    o.Transfers o.Faces o.EndsSettled SameTree (n + 1) (climb · least left)
      (climb · least left') := by
  apply Transfers.succ
  intro c t d c' hf h hend k hk
  rcases (gives_climb _ _ _ _ _ _).1 h with ⟨hop, rfl, rfl⟩ | ⟨op, right, e, hop, hle, hb, hl⟩
  · refine ⟨left', c', (gives_climb _ _ _ _ _ _).2 (.inl ⟨?_, rfl, rfl⟩), hleft, hf⟩
    by_cases hg : o.AtGap d
    · rw [hf.operator_of_atGap hg (hend hg)]
      exact fun op hop => nomatch hop
    · rw [← hf.operator hg]
      exact hop
  · have hg : ¬o.AtGap c := by
      intro hg
      rw [operator?_of_atGap hg] at hop
      cases hop
    obtain ⟨-, hfs⟩ := hf.step hg
    have hsettled : o.EndsSettled c.skip right e := by
      intro hg
      obtain rfl := climb_of_atGap hg hl
      exact hend hg
    obtain ⟨right', e', hb', hright, he⟩ := T.binary hfs.toMeets hb hsettled k hk
    have hboth : SameTree (.binary op left right) (.binary op left' right') := by
      simp only [SameTree, uncommented, unplaced] at hleft hright ⊢
      rw [hleft, hright]
    obtain ⟨t', d', hl', ht, hd⟩ := T.climb hboth he hl hend k hk
    exact ⟨t', d', (gives_climb _ _ _ _ _ _).2
      (.inr ⟨op, right', e', hf.operator hg ▸ hop, hle, hb', hl'⟩), ht, hd⟩

/-- A prefix operator and its operand. The comment cannot stand between the two, since an operand does not
begin with one. -/
theorem transfers_unary : o.Transfers o.Meets o.EndsSettled SameTree (n + 1) unary unary := by
  apply Transfers.succ
  intro c t d c' hm h hend k hk
  rcases (gives_unary _ _ _ _).1 h with ⟨op, operand, hop, hu, rfl⟩ | ⟨hop, left, e, hp, hl⟩
  · have hg : ¬o.AtGap c := by
      intro hg
      obtain ⟨_, us⟩ := c
      obtain rfl : us = o.gap := hg
      have hk : UnaryOp.ofKind? o.comment.kind = some op := hop
      rw [o.isComment] at hk
      cases hk
    obtain ⟨twin, hfs⟩ := hm.step hg
    obtain ⟨operand', d', hu', hoperand, hd⟩ := T.unary hfs.toMeets hu hend k hk
    refine ⟨.unary op operand', d', (gives_unary _ _ _ _).2
      (.inl ⟨op, operand', twin.kind ▸ hop, hu', rfl⟩), ?_, hd⟩
    simp only [SameTree, uncommented, unplaced] at hoperand ⊢
    rw [hoperand]
  · have hsettled : o.EndsSettled c left e := by
      intro hg
      obtain rfl := members_of_atGap hg hl
      exact hend hg
    obtain ⟨left', e', hp', hleft, he⟩ := T.primary hm hp hsettled k hk
    obtain ⟨t', d', hl', ht, hd⟩ := T.members hleft he hl hend k hk
    -- No operand begins with a comment.
    have hg : ¬o.AtGap c := by
      intro hg
      have hcomment : (c.peekAt 0).kind = .comment := by
        obtain ⟨_, us⟩ := c
        obtain rfl : us = o.gap := hg
        exact o.isComment
      cases n with
      | zero => exact absurd hp (not_gives_exhausted _ _ _)
      | succ n =>
        cases (gives_primary _ _ _ _).1 hp with
        | number h | str h | heredoc h | bool h | null h | call h | ident h | envRef h | group h
        | list h | entries h | directive h => exact Kind.noConfusion (h.symm.trans hcomment)
    rw [(hm.step hg).1.kind] at hop
    exact ⟨t', d', (gives_unary _ _ _ _).2 (.inr ⟨hop, left', e', hp', hl'⟩), ht, hd⟩

/-- The loop over members. A dot behind the comment would go on it, but a dot does not stand behind
something complete. -/
theorem transfers_members {left left' : Node} (hleft : SameTree left left') :
    o.Transfers o.Faces o.EndsSettled SameTree (n + 1) (members · left) (members · left') := by
  apply Transfers.succ
  intro c t d c' hf h hend k hk
  rcases (gives_members _ _ _ _ _).1 h with ⟨hd, rfl, rfl⟩ | ⟨hd, hn, hl⟩
  · have hd' : (c'.peekAt 0).kind ≠ .dot := fun h =>
      hd ((hf.kind_iff (fun hg => (hend hg).calm) rfl).2 h)
    exact ⟨left', c', (gives_members _ _ _ _ _).2 (.inl ⟨hd', rfl, rfl⟩), hleft, hf⟩
  · obtain ⟨twin, hfs⟩ := hf.step_of_kind hd Kind.noConfusion
    obtain ⟨twin₁, hfs₁⟩ := hfs.step_of_isName hn
    have hmember : SameTree (.member left (c.skip.peekAt 0).literal)
        (.member left' (c'.skip.peekAt 0).literal) := by
      simp only [SameTree, uncommented, unplaced] at hleft ⊢
      rw [hleft, twin₁.literal]
    obtain ⟨t', d', hl', ht, hd₁⟩ := T.members hmember hfs₁ hl hend k hk
    exact ⟨t', d', (gives_members _ _ _ _ _).2
      (.inr ⟨twin.kind ▸ hd, twin₁.isName ▸ hn, hl'⟩), ht, hd₁⟩

/-- An operand in each of its forms. The cases in which the comment is at its end are the single token and
the closing bracket. A word is the interesting one of these: without the comment, a bracket on its line
would make a call of it. -/
theorem transfers_primary :
    o.Transfers o.Meets o.EndsSettled SameTree (n + 1) primary primary := by
  apply Transfers.succ
  intro c t d c' hm h hend k hk
  -- A token of each of these kinds has its twin in the other text, so the form is the same there.
  cases (gives_primary _ _ _ _).1 h with
  | number hkind hv =>
    obtain ⟨twin, hfs⟩ := hm.step_of_kind hkind Kind.noConfusion
    exact ⟨_, _, (gives_primary _ _ _ _).2
      (.number (twin.kind ▸ hkind) (twin.literal ▸ hv)), rfl, hfs⟩
  | str hkind =>
    obtain ⟨twin, hfs⟩ := hm.step_of_kind hkind Kind.noConfusion
    refine ⟨_, _, (gives_primary _ _ _ _).2 (.str (twin.kind ▸ hkind)), ?_, hfs⟩
    rw [twin.literal, twin.quote]
    rfl
  | heredoc hkind =>
    obtain ⟨twin, hfs⟩ := hm.step_of_kind hkind Kind.noConfusion
    refine ⟨_, _, (gives_primary _ _ _ _).2 (.heredoc (twin.kind ▸ hkind)), ?_, hfs⟩
    rw [twin.literal, twin.delimiter]
    rfl
  | bool hkind =>
    obtain ⟨twin, hfs⟩ := hm.step_of_kind hkind Kind.noConfusion
    refine ⟨_, _, (gives_primary _ _ _ _).2 (.bool (twin.kind ▸ hkind)), ?_, hfs⟩
    rw [twin.literal]
    rfl
  | null hkind hn =>
    obtain ⟨twin, hfs⟩ := hm.step_of_kind hkind Kind.noConfusion
    exact ⟨_, _, (gives_primary _ _ _ _).2
      (.null (twin.kind ▸ hkind) (twin.literal ▸ hn)), rfl, hfs⟩
  | call hkind hn hp hl ha =>
    obtain ⟨twin, hfs⟩ := hm.step_of_kind hkind Kind.noConfusion
    obtain ⟨twin₁, hfs₁⟩ := hfs.step_of_kind hp Kind.noConfusion
    have hline := (hm.line_iff (not_atGap_of_kind hkind Kind.noConfusion)
      (not_atGap_of_kind hp Kind.noConfusion) (by rw [hp]; exact Kind.noConfusion)).1 hl
    obtain ⟨args', d', ha', hargs, hd⟩ := T.items (.inl rfl) hfs₁.toMeets ha trivial k hk
    refine ⟨_, d', (gives_primary _ _ _ _).2 (.call (twin.kind ▸ hkind) (twin.literal ▸ hn)
      (twin₁.kind ▸ hp) hline ha'), ?_, hd⟩
    simp only [SameTree, SameValues, uncommented, unplaced] at hargs ⊢
    rw [hargs, twin.literal]
  | ident hkind hn hp =>
    obtain ⟨twin, hfs⟩ := hm.step_of_kind hkind Kind.noConfusion
    refine ⟨_, _, (gives_primary _ _ _ _).2 (.ident (twin.kind ▸ hkind) (twin.literal ▸ hn) ?_),
      ?_, hfs⟩
    · -- A parenthesis there is one here as well, and on the same line.
      rintro ⟨hparen, hline⟩
      have hparen := (hfs.kind_iff (fun hg => (hend hg).calm) rfl).2 hparen
      exact hp ⟨hparen, (hm.line_iff (not_atGap_of_kind hkind Kind.noConfusion)
        (not_atGap_of_kind hparen Kind.noConfusion)
        (by rw [hparen]; exact Kind.noConfusion)).2 hline⟩
    · rw [twin.literal]
      rfl
  | envRef hkind =>
    obtain ⟨twin, hfs⟩ := hm.step_of_kind hkind Kind.noConfusion
    refine ⟨_, _, (gives_primary _ _ _ _).2 (.envRef (twin.kind ▸ hkind)), ?_, hfs⟩
    rw [twin.literal]
    rfl
  | @group inner e hkind hi hp =>
    obtain ⟨twin, hfs⟩ := hm.step_of_kind hkind Kind.noConfusion
    obtain ⟨inner', e', hi', hinner, he⟩ := T.expression hfs.toMeets hi
      (fun hg => absurd hg (not_atGap_of_kind hp Kind.noConfusion)) k hk
    obtain ⟨twin₁, hd⟩ := he.step_of_kind hp Kind.noConfusion
    refine ⟨.group inner', e'.skip, (gives_primary _ _ _ _).2
      (.group (twin.kind ▸ hkind) hi' (twin₁.kind ▸ hp)), ?_, hd⟩
    simp only [SameTree, uncommented, unplaced] at hinner ⊢
    rw [hinner]
  | list hkind hi =>
    obtain ⟨twin, hfs⟩ := hm.step_of_kind hkind Kind.noConfusion
    obtain ⟨elements', d', hi', helements, hd⟩ := T.items (.inr rfl) hfs.toMeets hi trivial k hk
    refine ⟨_, d', (gives_primary _ _ _ _).2 (.list (twin.kind ▸ hkind) hi'), ?_, hd⟩
    simp only [SameTree, SameValues, uncommented, unplaced] at helements ⊢
    rw [helements]
  | entries hkind hb =>
    obtain ⟨twin, -⟩ := hm.step_of_kind hkind Kind.noConfusion
    obtain ⟨statements', d', hb', hstatements, hd⟩ := T.body hm hb trivial k hk
    exact ⟨_, d', (gives_primary _ _ _ _).2 (.entries (twin.kind ▸ hkind) hb'),
      hstatements.ofEntries, hd⟩
  | directive hkind hdir =>
    obtain ⟨twin, -⟩ := hm.step_of_kind hkind Kind.noConfusion
    obtain ⟨t', d', hdir', ht, hd⟩ := T.directive hm hdir (fun _ => hend) k hk
    exact ⟨t', d', (gives_primary _ _ _ _).2 (.directive (twin.kind ▸ hkind) hdir'), ht, hd⟩

/-- Items. Comments between them are passed, so the omitted one is missed by nobody there. -/
theorem transfers_items {close : Kind} {context : String}
    (hclose : close = .rparen ∨ close = .rbracket) :
    o.Transfers o.Meets Anyhow SameValues (n + 1) (items · close context)
      (items · close context) := by
  have hresumes : close.resumes = true := by rcases hclose with rfl | rfl <;> rfl
  have hident : close ≠ .ident := by rcases hclose with rfl | rfl <;> exact Kind.noConfusion
  apply Transfers.succ
  intro c ns d c' hm h _ k hk
  obtain ⟨hmc, hoff⟩ := hm.skipComments
  obtain ⟨twin, hfs⟩ := hmc.step hoff
  rcases (gives_items _ _ _ _ _ _).1 h with ⟨hkind, rfl, rfl⟩ | ⟨hkind, item, e, hi, h⟩
  · exact ⟨[], c'.skipComments.skip, (gives_items _ _ _ _ _ _).2
      (.inl ⟨twin.kind ▸ hkind, rfl, rfl⟩), rfl, hfs⟩
  · have hkind' := twin.kind ▸ hkind
    -- Behind an item stands a comma or the bracket, perhaps behind comments.
    have hsettled : o.EndsSettled c.skipComments item e := by
      intro hg
      have he := ((forward n).expression hmc.ended hi).ended
      rcases h with ⟨hcomma, -⟩ | ⟨-, hend, -⟩
      · exact settled_of_skipComments he hg hcomma rfl Kind.noConfusion _
      · exact settled_of_skipComments he hg hend hresumes hident _
    obtain ⟨item', e', hi', hsame, he⟩ := T.expression hmc hi hsettled k hk
    obtain ⟨hec, hoffe⟩ := he.toMeets.skipComments
    obtain ⟨twin₁, hes⟩ := hec.step hoffe
    rcases h with ⟨hcomma, others, ho, rfl⟩ | ⟨hcomma, hend, rfl, rfl⟩
    · obtain ⟨others', d', ho', hothers, hd⟩ := T.items hclose hes.toMeets ho trivial k hk
      exact ⟨item' :: others', d', (gives_items _ _ _ _ _ _).2 (.inr ⟨hkind', item', e', hi',
        .inl ⟨twin₁.kind ▸ hcomma, others', ho', rfl⟩⟩), SameValues.cons hsame hothers, hd⟩
    · exact ⟨[item'], e'.skipComments.skip, (gives_items _ _ _ _ _ _).2 (.inr ⟨hkind', item', e',
        hi', .inr ⟨twin₁.kind ▸ hcomma, twin₁.kind ▸ hend, rfl, rfl⟩⟩),
        SameValues.cons hsame rfl, hes⟩

end Expressions

/-! ### Statements -/

section Statements

variable {n : Nat} (T : o.Transferred n)
include T

/-- A body with its braces. -/
theorem transfers_body {context : String} :
    o.Transfers o.Meets Anyhow SameStatements (n + 1) (body · context) (body · context) := by
  apply Transfers.succ
  intro c ns d c' hm h _ k hk
  obtain ⟨hkind, hi⟩ := (gives_body _ _ _ _ _).1 h
  obtain ⟨twin, hfs⟩ := hm.step_of_kind hkind Kind.noConfusion
  obtain ⟨ns', d', hi', hns, hd⟩ := T.bodyItems ⟨hm.begins hkind, hfs.toMeets⟩ hi trivial k hk
  exact ⟨ns', d', (gives_body _ _ _ _ _).2 ⟨twin.kind ▸ hkind, hi'⟩, hns, hd⟩

omit T in
/-- Where statements are looked for, the comment is passed over as a statement of its own. -/
theorem begins_behind {c e : Cursor} {m : Nat} {t : Node} (hb : Begins o.tokens c.skipSeparators)
    (hg : o.AtGap c.skipSeparators) (he : c.Ended)
    (h : (Rule.statement m).Gives c.skipSeparators t e) :
    t = .comment o.comment.literal ∧ e = ⟨o.comment.pos.line, o.left⟩ ∧
      Begins o.tokens (Cursor.mk o.comment.pos.line o.left).skipSeparators := by
  obtain ⟨rfl, rfl⟩ := statement_of_atGap hg h
  have hskip := skip_of_atGap hg (left_ne_nil he.skipSeparators hg)
  exact ⟨rfl, hskip, hskip ▸ hb.next h⟩

/-- The statements of a body. The comment may be one of them, in which case the others are read as they
were. -/
theorem transfers_bodyItems {context : String} :
    o.Transfers o.MeetsStatements Anyhow SameStatements (n + 1) (bodyItems · context)
      (bodyItems · context) := by
  apply Transfers.succ
  intro c ns d c' hm h _ k hk
  obtain ⟨hb, hm⟩ := hm
  rcases hm.skipSeparators with ⟨hmc, hoff⟩ | ⟨hg, l, hleft, hc'⟩
  · obtain ⟨twin, hfs⟩ := hmc.step hoff
    rcases (gives_bodyItems _ _ _ _ _).1 h with ⟨hkind, rfl, rfl⟩ |
      ⟨hkind, heof, first, e, others, hs, ho, rfl⟩
    · exact ⟨[], _, (gives_bodyItems _ _ _ _ _).2 (.inl ⟨twin.kind ▸ hkind, rfl, rfl⟩), rfl, hfs⟩
    · have he := ((forward n).statement hmc.ended hs).ended
      obtain ⟨first', e', hs', hfirst, hfe⟩ := T.statement ⟨hb, hoff, hmc⟩ hs
        ((follows_of_bodyItems ho).calm he) k hk
      obtain ⟨others', d', ho', hothers, hd⟩ :=
        T.bodyItems ⟨hb.next hs, hfe.toMeets⟩ ho trivial k hk
      exact ⟨first' :: others', d', (gives_bodyItems _ _ _ _ _).2 (.inr ⟨twin.kind ▸ hkind,
        twin.kind ▸ heof, first', e', others', hs', ho', rfl⟩),
        SameStatements.cons hfirst hothers, hd⟩
  · -- At the comment one side reads it and the other is behind it already.
    rcases (gives_bodyItems _ _ _ _ _).1 h with ⟨hkind, -⟩ | ⟨-, -, first, e, others, hs, ho, rfl⟩
    · exact absurd hg (not_atGap_of_kind hkind Kind.noConfusion)
    · obtain ⟨rfl, rfl, hb⟩ := begins_behind hb hg hm.ended hs
      obtain ⟨others', d', ho', hothers, hd⟩ :=
        T.bodyItems ⟨hb, hleft⟩ ho trivial (k + 1) (Nat.le_succ_of_le hk)
      refine ⟨others', d', ?_, hothers.comment _, hd⟩
      rw [gives_bodyItems, hc', ← gives_bodyItems]
      exact ho'

/-- An arrow. If it ends at the comment, what follows may not be the brace of its properties. -/
theorem transfers_arrow {relation : Option Relation} :
    o.Transfers o.MeetsOff (fun _ _ d => o.AtGap d → o.Calm) SameTree (n + 1) (arrow · relation)
      (arrow · relation) := by
  apply Transfers.succ
  intro c t d c' hm h hend k hk
  obtain ⟨hoff, hm⟩ := hm
  obtain ⟨e, rfl, hs, ha, ht, properties, hp, rfl⟩ := (gives_arrow _ _ _ _ _).1 h
  -- The relation is a token of its own if there is one.
  have hme : o.Meets (if relation.isSome = true then c.skip else c)
      (if relation.isSome = true then c'.skip else c') := by
    split
    · exact (hm.step hoff).2.toMeets
    · exact hm
  obtain ⟨twin₁, hf₁⟩ := hme.step_of_isName hs
  obtain ⟨twin₂, hf₂⟩ := hf₁.step_of_kind ha Kind.noConfusion
  obtain ⟨twin₃, hf₃⟩ := hf₂.step_of_isName ht
  rcases hp with ⟨hkind, hb⟩ | ⟨hkind, rfl, rfl⟩
  · obtain ⟨properties', d', hb', hproperties, hd⟩ := T.body hf₃.toMeets hb trivial k hk
    obtain ⟨twin₄, -⟩ := hf₃.step_of_kind hkind Kind.noConfusion
    refine ⟨_, d', (gives_arrow _ _ _ _ _).2 ⟨_, rfl, twin₁.isName ▸ hs, twin₂.kind ▸ ha,
      twin₃.isName ▸ ht, properties', .inl ⟨twin₄.kind ▸ hkind, hb'⟩, rfl⟩, ?_, hd⟩
    simp only [SameTree, SameStatements, uncommented, unplaced] at hproperties ⊢
    rw [hproperties, twin₁.literal, twin₃.literal]
  · have hkind' : _ ≠ Kind.lbrace := fun h => hkind ((hf₃.kind_iff hend rfl).2 h)
    refine ⟨_, _, (gives_arrow _ _ _ _ _).2 ⟨_, rfl, twin₁.isName ▸ hs, twin₂.kind ▸ ha,
      twin₃.isName ▸ ht, [], .inr ⟨hkind', rfl, rfl⟩, rfl⟩, ?_, hf₃⟩
    simp only [SameTree, uncommented, uncommentedAll, unplaced, unplacedAll]
    rw [twin₁.literal, twin₃.literal]

/-- Targets and the values behind their equals sign. -/
theorem transfers_values {targets : List Target} {sign : Token} {rest : List Token} {first : Node}
    {others : List Node} {c c' e d : Cursor} (hm : o.Meets c c')
    (hc : (c.peekAt 1).kind = .comma) (ht : targetList? c.rest = some (targets, sign, rest))
    (hv : (expression n).Gives ⟨sign.pos.line, rest⟩ first e)
    (ho : (moreValues n (targets.length - 1)).Gives e others d)
    (hend : o.AtGap d → o.Settled d.line ∧ (others.length < targets.length - 1 →
      ((Cursor.mk d.line o.left).peekAt 0).kind ≠ .comma)) (k : Nat) (hk : n ≤ k) :
    ∃ targets' sign' rest' first' e' others' d',
      targetList? c'.rest = some (targets', sign', rest') ∧
      (expression k).Gives ⟨sign'.pos.line, rest'⟩ first' e' ∧
      (moreValues k (targets'.length - 1)).Gives e' others' d' ∧
      (targets.map fun t => (⟨t.name, .start⟩ : Target)) =
        targets'.map (fun t => ⟨t.name, .start⟩) ∧
      targets.length = targets'.length ∧ SameTree first first' ∧ SameValues others others' ∧
      o.Faces d d' := by
  have hrest : rest ≠ [] := (targets_of_targetList? hm.ended ht hc).2.2.ne_nil
  obtain ⟨targets', sign', rest', ht', htargets, hfs⟩ := hm.facing.targetList? hm.inside ht hrest
  have hlength : targets.length = targets'.length := by
    simpa only [List.length_map] using congrArg List.length htargets
  have hsettled : o.EndsSettled ⟨sign.pos.line, rest⟩ first e := by
    intro hg
    obtain rfl := moreValues_of_atGap hg ho
    exact (hend hg).1
  obtain ⟨first', e', hv', hfirst, hfe⟩ := T.expression hfs.toMeets hv hsettled k hk
  obtain ⟨others', d', ho', hothers, hd⟩ := T.moreValues hfe ho hend k hk
  exact ⟨targets', sign', rest', first', e', others', d', ht', hv', hlength ▸ ho', htargets,
    hlength, hfirst, hothers, hd⟩

/-- More values. Behind the last one a comma may stand after the comment; it would be read as the beginning
of another value, so it is excluded by what is asked of the end. -/
theorem transfers_moreValues {limit : Nat} :
    o.Transfers o.Faces (fun _ ns d => o.AtGap d → o.Settled d.line ∧
      (ns.length < limit → ((Cursor.mk d.line o.left).peekAt 0).kind ≠ .comma))
      SameValues (n + 1) (moreValues · limit) (moreValues · limit) := by
  apply Transfers.succ
  intro c ns d c' hf h hend k hk
  cases limit with
  | zero =>
    obtain ⟨rfl, rfl⟩ := (gives_moreValues_zero _ _ _ _).1 h
    exact ⟨[], c', (gives_moreValues_zero _ _ _ _).2 ⟨rfl, rfl⟩, rfl, hf⟩
  | succ limit =>
    rcases (gives_moreValues _ _ _ _ _).1 h with ⟨hkind, rfl, rfl⟩ |
      ⟨hkind, value, e, others, hv, ho, rfl⟩
    · have hkind' : (c'.peekAt 0).kind ≠ .comma := by
        by_cases hg : o.AtGap d
        · obtain ⟨-, hleft, hoff⟩ := hf.right_of_atGap hg d.line
          rw [← (hleft.step hoff).1.kind]
          exact (hend hg).2 (Nat.succ_pos limit)
        · rw [← (hf.step hg).1.kind]
          exact hkind
      exact ⟨[], c', (gives_moreValues _ _ _ _ _).2 (.inl ⟨hkind', rfl, rfl⟩), rfl, hf⟩
    · obtain ⟨twin, hfs⟩ := hf.step_of_kind hkind Kind.noConfusion
      have hsettled : o.EndsSettled c.skip value e := by
        intro hg
        obtain rfl := moreValues_of_atGap hg ho
        exact (hend hg).1
      obtain ⟨value', e', hv', hvalue, hfe⟩ := T.expression hfs.toMeets hv hsettled k hk
      obtain ⟨others', d', ho', hothers, hd⟩ := T.moreValues hfe ho
        (fun hg => ⟨(hend hg).1, fun hl => (hend hg).2 (Nat.succ_lt_succ hl)⟩) k hk
      exact ⟨value' :: others', d', (gives_moreValues _ _ _ _ _).2
        (.inr ⟨twin.kind ▸ hkind, value', e', others', hv', ho', rfl⟩),
        SameValues.cons hvalue hothers, hd⟩

/-- A statement that begins with a name, which does not go on behind the comment. Each of the ways in which
it might is excluded by one case of `GoesOn`: a value by an operator or by a second value, a flag by a
label, by an arrow of which it names the relation, or by further targets. -/
theorem transfers_blockOrAssignment :
    o.Transfers o.MeetsOff (fun c t d => ¬o.GoesOn c t d ∧ (o.Near d → o.Calm)) SameTree (n + 1)
      blockOrAssignment blockOrAssignment := by
  apply Transfers.succ
  intro c t d c' hm h hend k hk
  obtain ⟨hoff, hm⟩ := hm
  obtain ⟨hgoes, hcalm⟩ := hend
  obtain ⟨twin, hfs⟩ := hm.step hoff
  -- A value in front of the gap is settled, since nothing goes on.
  have hsettled : t.endsInValue = true → o.AtGap d → o.Settled d.line := by
    intro ht hg
    refine ⟨hcalm (.inl hg), ?_⟩
    by_contra ho
    exact hgoes (.operator ht hg (Option.isSome_iff_ne_none.2 ho))
  cases (gives_blockOrAssignment _ _ _ _).1 h with
  | block hn hb =>
    have hn' := hfs.kind_second hn Kind.noConfusion
    obtain ⟨statements', d', hb', hstatements, hd⟩ := T.body hfs.toMeets hb trivial k hk
    refine ⟨_, d', (gives_blockOrAssignment _ _ _ _).2 (.block hn' hb'), ?_, hd⟩
    rw [twin.literal]
    exact hstatements.ofBlock _ _ _ _
  | labelled hn hl h2 hb =>
    rw [Seam.peekAt_succ] at hn hl
    rw [Seam.peekAt_succ, Seam.peekAt_succ] at h2
    obtain ⟨twin₁, hfs₁⟩ := hfs.step_of_isName hn
    have heof : (c.skip.peekAt 0).kind ≠ .eof := by
      intro he
      simp [Token.isName, he] at hn
    have hl' := (hm.line_iff hoff (not_atGap_of_isName hn) heof).1 hl
    have h2' := (hfs₁.step_of_kind h2 Kind.noConfusion).1.kind ▸ h2
    have hn' := twin₁.isName ▸ hn
    obtain ⟨statements', d', hb', hstatements, hd⟩ := T.body hfs₁.toMeets hb trivial k hk
    refine ⟨_, d', (gives_blockOrAssignment _ _ _ _).2 (.labelled ?_ ?_ ?_ hb'), ?_, hd⟩
    · rw [Seam.peekAt_succ]
      exact hn'
    · rw [Seam.peekAt_succ]
      exact hl'
    · rw [Seam.peekAt_succ, Seam.peekAt_succ]
      exact h2'
    · rw [twin.literal, Seam.peekAt_succ, twin₁.literal, Seam.peekAt_succ]
      exact hstatements.ofBlock _ _ _ _
  | @assign value _ hn hv =>
    have hsign : (c.skip.peekAt 0).kind = .assign ∨ (c.skip.peekAt 0).kind = .colon := by
      rw [Seam.peekAt_succ] at hn
      exact hn
    have hoff₁ : ¬o.AtGap c.skip :=
      hsign.elim (not_atGap_of_kind · Kind.noConfusion) (not_atGap_of_kind · Kind.noConfusion)
    obtain ⟨twin₁, hfs₁⟩ := hfs.step hoff₁
    have hkind : (c.peekAt 1).kind = (c'.peekAt 1).kind := by
      rw [Seam.peekAt_succ, Seam.peekAt_succ]
      exact twin₁.kind
    have hvalued : o.EndsSettled c.skip.skip value d := by
      intro hg
      refine hsettled ?_ hg
      dsimp only [endsInValue]
      split <;> rfl
    obtain ⟨value', d', hv', hvalue, hd⟩ := T.expression hfs₁.toMeets hv hvalued k hk
    refine ⟨_, d', (gives_blockOrAssignment _ _ _ _).2 (.assign (hkind ▸ hn) hv'), ?_, hd⟩
    simp only [SameTree, uncommented, unplaced] at hvalue ⊢
    rw [hvalue, twin.literal, hkind]
  | assignEach hkind hn ht hv ho hl =>
    obtain ⟨targets', sign', rest', first', e', others', d', ht', hv', ho', htargets, hlength,
      hfirst, hothers, hd⟩ := transfers_values T hm hn ht hv ho
        (fun hg => ⟨hsettled rfl hg, fun h => absurd hl (by omega)⟩) k hk
    have hn' := hfs.kind_second hn Kind.noConfusion
    have hl' : others'.length + 1 = targets'.length := by
      rw [← hothers.length, ← hlength]
      exact hl
    exact ⟨_, d', (gives_blockOrAssignment _ _ _ _).2
      (.assignEach (twin.kind ▸ hkind) hn' ht' hv' ho' hl'),
      SameValues.assignEach (SameValues.cons hfirst hothers) htargets, hd⟩
  | destructure hkind hn ht hv ho hl =>
    obtain ⟨targets', sign', rest', first', e', others', d', ht', hv', ho', htargets, hlength,
      hfirst, hothers, hd⟩ := transfers_values T hm hn ht hv ho
        (fun hg => ⟨hsettled rfl hg, fun _ hcomma => hgoes (.value hg hcomma)⟩) k hk
    have hn' := hfs.kind_second hn Kind.noConfusion
    obtain rfl : others' = [] := List.length_eq_zero_iff.1 hothers.length.symm
    refine ⟨_, d', (gives_blockOrAssignment _ _ _ _).2
      (.destructure (twin.kind ▸ hkind) hn' ht' hv' ho' (hlength ▸ hl)), ?_, hd⟩
    simp only [SameTree, uncommented, unplaced] at hfirst ⊢
    rw [hfirst, htargets]
  | flag hkind hb hl ha ht =>
    refine ⟨_, _, (gives_blockOrAssignment _ _ _ _).2 (hm.flag hkind hb hl ha ht hcalm hgoes),
      ?_, hfs⟩
    rw [twin.literal]
    rfl

/-- A statement at a place where one is looked for. That it does not go on behind the comment is known from
such places only, which is why the place is part of the assumption. -/
theorem transfers_statement (Q : o.Quiet) :
    o.Transfers (fun c c' => Begins o.tokens c ∧ o.MeetsOff c c')
      (fun _ _ d => o.Near d → o.Calm) SameTree (n + 1) Rule.statement Rule.statement := by
  apply Transfers.succ
  intro c t d c' hstart h hcalm k hk
  obtain ⟨hb, hoff, hm⟩ := hstart
  obtain ⟨twin, hfs⟩ := hm.step hoff
  cases (gives_statement _ _ _ _).1 h with
  | comment hkind =>
    refine ⟨_, _, (gives_statement _ _ _ _).2 (.comment (twin.kind ▸ hkind)), ?_, hfs⟩
    rw [twin.literal]
    rfl
  | directive hkind hdir =>
    have hsettled : t.endsInValue = true → o.AtGap d → o.Settled d.line := by
      intro ht hg
      refine ⟨hcalm (.inl hg), ?_⟩
      by_contra ho
      exact Q hb h (.operator ht hg (Option.isSome_iff_ne_none.2 ho))
    obtain ⟨t', d', hdir', ht, hd⟩ := T.directive hm hdir hsettled k hk
    exact ⟨t', d', (gives_statement _ _ _ _).2 (.directive (twin.kind ▸ hkind) hdir'), ht, hd⟩
  | control hkind hc =>
    obtain ⟨branches', d', hc', hbranches, hd⟩ := T.control ⟨hoff, hm⟩ hc trivial k hk
    refine ⟨_, d', (gives_statement _ _ _ _).2 (.control (twin.kind ▸ hkind) hc'), ?_, hd⟩
    simp only [SameTree, SameBranches, uncommented, unplaced] at hbranches ⊢
    rw [hbranches]
  | arrow hname ha hr =>
    obtain ⟨t', d', hr', ht, hd⟩ := T.arrow ⟨hoff, hm⟩ hr (fun hg => hcalm (.inl hg)) k hk
    exact ⟨t', d', (gives_statement _ _ _ _).2
      (.arrow (twin.isName ▸ hname) (hm.arrowAhead? ha) hr'), ht, hd⟩
  | named hname ha hnamed =>
    -- If the comment is right behind the name, only a flag can have been read: every other form has
    -- read the token behind it.
    have hflag : o.Near c.skip → t = .assign ⟨(c.peekAt 0).literal, (c.peekAt 0).pos⟩
        (.literal (.bool true)) .flag ∧ d = c.skip := by
      intro hnear
      cases n with
      | zero => exact absurd hnamed (not_gives_exhausted _ _ _)
      | succ n => exact flag_of_named ((gives_blockOrAssignment _ _ _ _).1 hnamed) hnear
    have ha' : arrowAhead? c' = none := by
      refine hm.arrowAhead?_eq_none hname ha (fun hnear => ?_) fun hg hr hopens => ?_
      · obtain ⟨-, rfl⟩ := hflag hnear
        exact hcalm hnear
      · obtain ⟨rfl, rfl⟩ := hflag (.inl hg)
        exact Q hb h (.relation hg hr hopens)
    obtain ⟨t', d', hnamed', ht, hd⟩ :=
      T.blockOrAssignment ⟨hoff, hm⟩ hnamed ⟨Q hb h, hcalm⟩ k hk
    exact ⟨t', d', (gives_statement _ _ _ _).2
      (.named (twin.isName ▸ hname) ha' hnamed'), ht, hd⟩

/-- A chain from its condition on. -/
theorem transfers_control :
    o.Transfers o.MeetsOff Anyhow SameBranches (n + 1) control control := by
  apply Transfers.succ
  intro c bs d c' hm h _ k hk
  obtain ⟨hoff, hm⟩ := hm
  obtain ⟨-, hfs⟩ := hm.step hoff
  obtain ⟨condition, e, statements, e₁, others, hc, hb, ho, rfl⟩ := (gives_control _ _ _ _).1 h
  -- The condition ends in front of a brace.
  have hbrace : (e.peekAt 0).kind = .lbrace := by
    cases n with
    | zero => exact absurd hb (not_gives_exhausted _ _ _)
    | succ n => exact ((gives_body _ _ _ _ _).1 hb).1
  obtain ⟨condition', e', hc', hcondition, hfe⟩ := T.expression hfs.toMeets hc
    (fun hg => absurd hg (not_atGap_of_kind hbrace Kind.noConfusion)) k hk
  obtain ⟨statements', e₁', hb', hstatements, hfe₁⟩ := T.body hfe.toMeets hb trivial k hk
  obtain ⟨others', d', ho', hothers, hd⟩ := T.elseChain hfe₁ ho trivial k hk
  refine ⟨_, d', (gives_control _ _ _ _).2
    ⟨condition', e', statements', e₁', others', hc', hb', ho', rfl⟩, ?_, hd⟩
  have hcondition := hcondition.ungroup
  simp only [SameTree, SameStatements, SameBranches, uncommentedBranches, uncommentedOption,
    unplacedBranches, unplacedOption] at hcondition hstatements hothers ⊢
  rw [hcondition, hstatements, hothers]

/-- The links of a chain. Comments in front of a keyword are passed when looking for it, so the omitted one
makes no difference. -/
theorem transfers_elseChain :
    o.Transfers o.Faces Anyhow SameBranches (n + 1) elseChain elseChain := by
  apply Transfers.succ
  intro c bs d c' hf h _ k hk
  have hahead : elseAhead c = elseAhead c' := hf.facing.elseAhead c.line c'.line
  rcases (gives_elseChain _ _ _ _).1 h with ⟨ha, rfl, rfl⟩ | ⟨ha, h⟩
  · exact ⟨[], c', (gives_elseChain _ _ _ _).2 (.inl ⟨hahead ▸ ha, rfl, rfl⟩), rfl, hf⟩
  · obtain ⟨hmc, hoff⟩ := hf.toMeets.skipComments
    obtain ⟨twin, hfs⟩ := hmc.step hoff
    rcases h with ⟨hkind, h⟩ | ⟨hkind, h⟩
    · obtain ⟨bs', d', h', hbs, hd⟩ := T.control ⟨hoff, hmc⟩ h trivial k hk
      exact ⟨bs', d', (gives_elseChain _ _ _ _).2
        (.inr ⟨hahead ▸ ha, .inl ⟨twin.kind ▸ hkind, h'⟩⟩), hbs, hd⟩
    · simp only [Seam.peekAt_succ] at h
      rcases h with ⟨hif, h⟩ | ⟨hif, statements, hb, rfl⟩
      · have hoff₁ := not_atGap_of_kind (o := o) hif Kind.noConfusion
        obtain ⟨bs', d', h', hbs, hd⟩ := T.control ⟨hoff₁, hfs.toMeets⟩ h trivial k hk
        refine ⟨bs', d', (gives_elseChain _ _ _ _).2 (.inr ⟨hahead ▸ ha,
          .inr ⟨twin.kind ▸ hkind, .inl ⟨?_, h'⟩⟩⟩), hbs, hd⟩
        rw [Seam.peekAt_succ]
        exact (hfs.step hoff₁).1.kind ▸ hif
      · have hbrace : (c.skipComments.skip.peekAt 0).kind = .lbrace := by
          cases n with
          | zero => exact absurd hb (not_gives_exhausted _ _ _)
          | succ n => exact ((gives_body _ _ _ _ _).1 hb).1
        obtain ⟨twin₁, -⟩ := hfs.step_of_kind hbrace Kind.noConfusion
        obtain ⟨statements', d', hb', hstatements, hd⟩ := T.body hfs.toMeets hb trivial k hk
        refine ⟨_, d', (gives_elseChain _ _ _ _).2 (.inr ⟨hahead ▸ ha,
          .inr ⟨twin.kind ▸ hkind, .inr ⟨?_, statements', hb', rfl⟩⟩⟩), ?_, hd⟩
        · rw [Seam.peekAt_succ]
          exact twin₁.kind ▸ hif
        · simp only [SameStatements, SameBranches, uncommentedBranches, uncommentedOption,
            unplacedBranches, unplacedOption] at hstatements ⊢
          rw [hstatements]

end Statements

/-! ### Directives -/

section Directives

variable {n : Nat} (T : o.Transferred n)
include T

/-- A directive. Of its forms an inclusion alone ends with a value, so it alone may end at the comment
without being closed. -/
theorem transfers_directive :
    o.Transfers o.Meets (fun _ t d => t.endsInValue = true → o.AtGap d → o.Settled d.line) SameTree
      (n + 1) directive directive := by
  apply Transfers.succ
  intro c t d c' hm h hend k hk
  obtain ⟨hsign, hname, h⟩ := (gives_directive _ _ _ _).1 h
  obtain ⟨twin, hfs⟩ := hm.step_of_kind hsign Kind.noConfusion
  obtain ⟨twin₁, hfs₁⟩ := hfs.step_of_kind hname Kind.noConfusion
  have hsign' := twin.kind ▸ hsign
  have hname' := twin₁.kind ▸ hname
  cases h with
  | inclusion hn ht =>
    obtain ⟨target', d', ht', htarget, hd⟩ := T.expression hfs₁.toMeets ht (hend rfl) k hk
    refine ⟨_, d', (gives_directive _ _ _ _).2
      ⟨hsign', hname', .inclusion (twin₁.literal ▸ hn) ht'⟩, ?_, hd⟩
    simp only [SameTree, uncommented, unplaced] at htarget ⊢
    rw [htarget]
  | exec hn hp ha =>
    obtain ⟨twin₂, hfs₂⟩ := hfs₁.step_of_kind hp Kind.noConfusion
    have hnone : SameOption none none := rfl
    obtain ⟨t', d', ha', ht, hd⟩ :=
      T.execArguments hnone hnone hnone hfs₂.toMeets ha trivial k hk
    exact ⟨t', d', (gives_directive _ _ _ _).2
      ⟨hsign', hname', .exec (twin₁.literal ▸ hn) (twin₂.kind ▸ hp) ha'⟩, ht, hd⟩
  | pipeline hn hb hi =>
    obtain ⟨twin₂, hfs₂⟩ := hfs₁.step_of_kind hb Kind.noConfusion
    obtain ⟨statements', d', hi', hstatements, hd⟩ :=
      T.pipelineItems ⟨hfs₁.begins hb, hfs₂.toMeets⟩ hi trivial k hk
    refine ⟨_, d', (gives_directive _ _ _ _).2
      ⟨hsign', hname', .pipeline (twin₁.literal ▸ hn) (twin₂.kind ▸ hb) hi'⟩, ?_, hd⟩
    simp only [SameTree, SameStatements, uncommented, unplaced] at hstatements ⊢
    rw [hstatements]

section Exec

variable {sign sign' : Token} {cmd cmd' args args' dir dir' : Option Node}

omit T in
/-- The arguments of `@exec` carry over together. -/
theorem transfers_execNode (hcmd : SameOption cmd cmd') (hargs : SameOption args args')
    (hdir : SameOption dir dir') {c d : Cursor} {t : Node}
    (h : (execNode sign cmd args dir).Gives c t d) (c' : Cursor) :
    d = c ∧ ∃ t', (execNode sign' cmd' args' dir').Gives c' t' c' ∧ SameTree t t' := by
  obtain ⟨program, rfl, rfl, rfl⟩ := (gives_execNode _ _ _ _ _ _ _).1 h
  cases cmd' with
  | none => cases hcmd
  | some program' =>
    refine ⟨rfl, _, (gives_execNode _ _ _ _ _ _ _).2 ⟨program', rfl, rfl, rfl⟩, ?_⟩
    have hcmd := Option.some.inj hcmd
    simp only [SameOption, SameTree, uncommented, unplaced] at hargs hdir ⊢
    rw [hcmd, hargs, hdir]

omit T in
/-- Behind an argument stands a comma or the parenthesis, perhaps behind comments. -/
theorem settled_of_moreExecArguments {e d : Cursor} {t : Node} (he : e.Ended) (hg : o.AtGap e)
    (h : (moreExecArguments n sign cmd args dir).Gives e t d) : o.Settled e.line := by
  cases n with
  | zero => exact absurd h (not_gives_exhausted _ _ _)
  | succ n =>
    rcases (gives_moreExecArguments _ _ _ _ _ _ _ _).1 h with ⟨hkind, -⟩ | ⟨hkind, -⟩
    · exact settled_of_skipComments he hg hkind rfl Kind.noConfusion _
    · exact settled_of_skipComments he hg hkind rfl Kind.noConfusion _

/-- The arguments of an execution, between which comments are passed. -/
theorem transfers_execArguments (hcmd : SameOption cmd cmd') (hargs : SameOption args args')
    (hdir : SameOption dir dir') :
    o.Transfers o.Meets Anyhow SameTree (n + 1) (execArguments · sign cmd args dir)
      (execArguments · sign' cmd' args' dir') := by
  apply Transfers.succ
  intro c t d c' hm h _ k hk
  obtain ⟨hmc, hoff⟩ := hm.skipComments
  obtain ⟨twin, hfs⟩ := hmc.step hoff
  rcases (gives_execArguments _ _ _ _ _ _ _ _).1 h with ⟨hkind, h⟩ |
    ⟨hkind, heq, value, e, hv, h⟩
  · obtain ⟨rfl, t', h', ht⟩ := transfers_execNode hcmd hargs hdir h c'.skipComments.skip
    exact ⟨t', _, (gives_execArguments _ _ _ _ _ _ _ _).2
      (.inl ⟨twin.kind ▸ hkind, h'⟩), ht, hfs⟩
  · obtain ⟨twin₁, hfs₁⟩ := hfs.step_of_kind heq Kind.noConfusion
    have he := ((forward n).expression hfs₁.ended hv).ended
    have hsettled : o.EndsSettled c.skipComments.skip.skip value e := by
      intro hg
      rcases h with ⟨-, h⟩ | ⟨-, h⟩ | ⟨-, h⟩
      all_goals exact settled_of_moreExecArguments he hg h
    obtain ⟨value', e', hv', hvalue, hfe⟩ := T.expression hfs₁.toMeets hv hsettled k hk
    -- Whichever argument it is, the other side is put together in the same way.
    have hargument : ∀ {t' : Node} {d' : Cursor},
        ((c'.skipComments.peekAt 0).literal = "cmd" ∧
            (moreExecArguments k sign' (some value') args' dir').Gives e' t' d') ∨
          ((c'.skipComments.peekAt 0).literal = "args" ∧
            (moreExecArguments k sign' cmd' (some value') dir').Gives e' t' d') ∨
          ((c'.skipComments.peekAt 0).literal = "dir" ∧
            (moreExecArguments k sign' cmd' args' (some value')).Gives e' t' d') →
        (execArguments (k + 1) sign' cmd' args' dir').Gives c' t' d' := fun h =>
      (gives_execArguments _ _ _ _ _ _ _ _).2
        (.inr ⟨twin.kind ▸ hkind, twin₁.kind ▸ heq, value', e', hv', h⟩)
    rcases h with ⟨hn, h⟩ | ⟨hn, h⟩ | ⟨hn, h⟩
    · obtain ⟨t', d', h', ht, hd⟩ :=
        T.moreExecArguments hvalue.some hargs hdir hfe.toMeets h trivial k hk
      exact ⟨t', d', hargument (.inl ⟨twin.literal ▸ hn, h'⟩), ht, hd⟩
    · obtain ⟨t', d', h', ht, hd⟩ :=
        T.moreExecArguments hcmd hvalue.some hdir hfe.toMeets h trivial k hk
      exact ⟨t', d', hargument (.inr (.inl ⟨twin.literal ▸ hn, h'⟩)), ht, hd⟩
    · obtain ⟨t', d', h', ht, hd⟩ :=
        T.moreExecArguments hcmd hargs hvalue.some hfe.toMeets h trivial k hk
      exact ⟨t', d', hargument (.inr (.inr ⟨twin.literal ▸ hn, h'⟩)), ht, hd⟩

/-- What follows an argument, in front of which comments are passed. -/
theorem transfers_moreExecArguments (hcmd : SameOption cmd cmd') (hargs : SameOption args args')
    (hdir : SameOption dir dir') :
    o.Transfers o.Meets Anyhow SameTree (n + 1) (moreExecArguments · sign cmd args dir)
      (moreExecArguments · sign' cmd' args' dir') := by
  apply Transfers.succ
  intro c t d c' hm h _ k hk
  obtain ⟨hmc, hoff⟩ := hm.skipComments
  obtain ⟨twin, hfs⟩ := hmc.step hoff
  rcases (gives_moreExecArguments _ _ _ _ _ _ _ _).1 h with ⟨hkind, h⟩ | ⟨hkind, h⟩
  · obtain ⟨t', d', h', ht, hd⟩ := T.execArguments hcmd hargs hdir hfs.toMeets h trivial k hk
    exact ⟨t', d', (gives_moreExecArguments _ _ _ _ _ _ _ _).2
      (.inl ⟨twin.kind ▸ hkind, h'⟩), ht, hd⟩
  · obtain ⟨rfl, t', h', ht⟩ := transfers_execNode hcmd hargs hdir h c'.skipComments.skip
    exact ⟨t', _, (gives_moreExecArguments _ _ _ _ _ _ _ _).2
      (.inr ⟨twin.kind ▸ hkind, h'⟩), ht, hfs⟩

end Exec

/-- The items of a pipeline. As in a body, the comment may be between two of them, and is not kept in either
case. -/
theorem transfers_pipelineItems (Q : o.Quiet) :
    o.Transfers o.MeetsStatements Anyhow SameStatements (n + 1) pipelineItems pipelineItems := by
  apply Transfers.succ
  intro c ns d c' hm h _ k hk
  obtain ⟨hb, hm⟩ := hm
  rcases hm.skipSeparators with ⟨hmc, hoff⟩ | ⟨hg, l, hleft, hc'⟩
  · obtain ⟨twin, hfs⟩ := hmc.step hoff
    cases (gives_pipelineItems _ _ _ _).1 h with
    | close hkind =>
      exact ⟨_, _, (gives_pipelineItems _ _ _ _).2 (.close (twin.kind ▸ hkind)), rfl, hfs⟩
    | comment hkind ho =>
      have hs := (gives_statement n _ _ _).2 (.comment hkind)
      obtain ⟨others', d', ho', hothers, hd⟩ :=
        T.pipelineItems ⟨hb.next hs, hfs.toMeets⟩ ho trivial k hk
      refine ⟨_, d', (gives_pipelineItems _ _ _ _).2 (.comment (twin.kind ▸ hkind) ho'), ?_, hd⟩
      refine SameStatements.cons ?_ hothers
      rw [twin.literal]
      rfl
    | arrow hname ha hr ho =>
      have hs := (gives_statement _ _ _ _).2 (.arrow hname ha hr)
      have he := ((forward n).arrow hmc.ended hr).ended
      obtain ⟨first', e', hr', hfirst, hfe⟩ := T.arrow ⟨hoff, hmc⟩ hr
        ((follows_of_pipelineItems ho).calm_of_atGap he) k hk
      obtain ⟨others', d', ho', hothers, hd⟩ :=
        T.pipelineItems ⟨hb.next hs, hfe.toMeets⟩ ho trivial k hk
      exact ⟨_, d', (gives_pipelineItems _ _ _ _).2
        (.arrow (twin.isName ▸ hname) (hmc.arrowAhead? ha) hr' ho'),
        SameStatements.cons hfirst hothers, hd⟩
    | step hname ha hn hf ho =>
      have hs := (gives_statement _ _ _ _).2 (.named hname ha hf)
      have he := ((forward n).blockOrAssignment hmc.ended hf).ended
      rw [Seam.peekAt_succ] at hn
      -- A sign stands behind the name, so neither the gap nor another name does.
      have hoff₁ : ¬o.AtGap c.skipSeparators.skip :=
        hn.elim (not_atGap_of_kind · Kind.noConfusion) (not_atGap_of_kind · Kind.noConfusion)
      have hfar : ¬o.Near c.skipSeparators.skip := by
        rintro (hg | ⟨hname, -⟩)
        · exact hoff₁ hg
        · rcases hn with hn | hn <;> simp [Token.isName, hn] at hname
      have ha' := hmc.arrowAhead?_eq_none hname ha (fun h => absurd h hfar)
        (fun h => absurd h hoff₁)
      have hn' : (c'.skipSeparators.peekAt 1).kind = .assign ∨
          (c'.skipSeparators.peekAt 1).kind = .colon := by
        rw [Seam.peekAt_succ]
        exact (hfs.step hoff₁).1.kind ▸ hn
      obtain ⟨first', e', hf', hfirst, hfe⟩ := T.blockOrAssignment ⟨hoff, hmc⟩ hf
        ⟨Q hb hs, (follows_of_pipelineItems ho).calm he⟩ k hk
      obtain ⟨others', d', ho', hothers, hd⟩ :=
        T.pipelineItems ⟨hb.next hs, hfe.toMeets⟩ ho trivial k hk
      exact ⟨_, d', (gives_pipelineItems _ _ _ _).2
        (.step (twin.isName ▸ hname) ha' hn' hf' ho'), SameStatements.cons hfirst hothers, hd⟩
  · cases (gives_pipelineItems _ _ _ _).1 h with
    | close hkind => exact absurd hg (not_atGap_of_kind hkind Kind.noConfusion)
    | arrow hname | step hname => exact absurd hg (not_atGap_of_isName hname)
    | comment hkind ho =>
      obtain ⟨-, hskip, hb⟩ := begins_behind hb hg hm.ended
        ((gives_statement n _ _ _).2 (.comment hkind))
      rw [hskip] at ho
      obtain ⟨others', d', ho', hothers, hd⟩ :=
        T.pipelineItems ⟨hb, hleft⟩ ho trivial (k + 1) (Nat.le_succ_of_le hk)
      refine ⟨others', d', ?_, hothers.comment _, hd⟩
      rw [gives_pipelineItems, hc', ← gives_pipelineItems]
      exact ho'

end Directives

/-- **Readings carry over,** whatever their budget, if no statement goes on behind the comment. By induction
on the budget, for all rules at once; that statements do not go on is needed for statements and the steps of
pipelines. -/
theorem transferred (Q : o.Quiet) (n : Nat) : o.Transferred n := by
  induction n with
  | zero => exact transferred_zero
  | succ n T => exact {
      expression := transfers_expression T
      binary := transfers_binary T
      climb := transfers_climb T
      unary := transfers_unary T
      members := transfers_members T
      primary := transfers_primary T
      items := transfers_items T
      body := transfers_body T
      bodyItems := transfers_bodyItems T
      statement := transfers_statement T Q
      arrow := transfers_arrow T
      blockOrAssignment := transfers_blockOrAssignment T
      moreValues := transfers_moreValues T
      control := transfers_control T
      elseChain := transfers_elseChain T
      directive := transfers_directive T
      execArguments := transfers_execArguments T
      moreExecArguments := transfers_moreExecArguments T
      pipelineItems := transfers_pipelineItems T Q }

/-! ## 2. Documents -/

/-- A document is read without the comment to the same statements, comments apart. The induction is on
the budget; each statement begins at a place where one is looked for, because the one before it has
ended there. -/
theorem document_of_meets (Q : o.Quiet) {n : Nat} {ns : List Node} {c d c' : Cursor}
    (hm : o.MeetsStatements c c') (h : (document n).Gives c ns d) (k : Nat) (hk : n ≤ k) :
    ∃ ns' d', (document k).Gives c' ns' d' ∧ SameStatements ns ns' := by
  induction n generalizing c c' ns k with
  | zero => exact absurd h (not_gives_exhausted _ _ _)
  | succ n ih =>
    obtain ⟨k, rfl⟩ : ∃ j, k = j + 1 := ⟨k - 1, by omega⟩
    have hk : n ≤ k := Nat.le_of_succ_le_succ hk
    obtain ⟨hb, hm⟩ := hm
    rcases hm.skipSeparators with ⟨hmc, hoff⟩ | ⟨hg, l, hleft, hc'⟩
    · obtain ⟨twin, -⟩ := hmc.step hoff
      rcases (gives_document _ _ _ _).1 h with ⟨hkind, rfl, -⟩ |
        ⟨hkind, first, e, others, hs, ho, rfl⟩
      · exact ⟨[], _, (gives_document _ _ _ _).2 (.inl ⟨twin.kind ▸ hkind, rfl, rfl⟩), rfl⟩
      · have he := ((forward n).statement hmc.ended hs).ended
        obtain ⟨first', e', hs', hfirst, hfe⟩ := (transferred Q n).statement ⟨hb, hoff, hmc⟩ hs
          ((follows_of_document ho).calm he) k hk
        obtain ⟨others', d', ho', hothers⟩ := ih ⟨hb.next hs, hfe.toMeets⟩ ho k hk
        exact ⟨first' :: others', d', (gives_document _ _ _ _).2
          (.inr ⟨twin.kind ▸ hkind, first', e', others', hs', ho', rfl⟩),
          SameStatements.cons hfirst hothers⟩
    · rcases (gives_document _ _ _ _).1 h with ⟨hkind, -⟩ | ⟨-, first, e, others, hs, ho, rfl⟩
      · exact absurd hg (not_atGap_of_kind hkind Kind.noConfusion)
      · obtain ⟨rfl, rfl, hb⟩ := begins_behind hb hg hm.ended hs
        obtain ⟨others', d', ho', hothers⟩ := ih ⟨hb, hleft⟩ ho (k + 1) (Nat.le_succ_of_le hk)
        refine ⟨others', d', ?_, hothers.comment _⟩
        rw [gives_document, hc', ← gives_document]
        exact ho'

/-- **A document without the comment is the same document,** comments and positions aside. At the beginning
both texts are where a statement is looked for, and from there readings carry over. -/
theorem document_of_facing (Q : o.Quiet) {ts : List Token} (facing : o.Facing o.tokens ts)
    {n : Nat} {ns : List Node} {d : Cursor} (h : (document n).Gives (ofTokens o.tokens) ns d) :
    ∃ ns' d', (document n).Gives (ofTokens ts) ns' d' ∧ SameStatements ns ns' :=
  have hm : o.Meets (ofTokens o.tokens) (ofTokens ts) := ⟨facing, List.suffix_refl _⟩
  document_of_meets Q ⟨.document, hm⟩ h n (Nat.le_refl n)

end Omission

end BlockConfig
