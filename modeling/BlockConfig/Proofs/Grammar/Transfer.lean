import BlockConfig.Proofs.Grammar.Seam

/-!
Readings carry over.

What a rule reads in front of a seam it also reads in a list that agrees up to that seam, with any
budget that is not smaller: the result is the same tree with its positions moved, and the cursors
behind it face each other again (`Seam.Transfers`). As with all properties of the grammar there is
one statement for each rule, and they are proved together by induction on the budget
(`Seam.transferred`). Each proof takes the reading apart, carries its parts over and puts them
together again on the other side.
-/

set_option autoImplicit false

namespace BlockConfig

open Cursor Rule Node

namespace Cursor

theorem length_skip_le (c : Cursor) : c.skip.rest.length ≤ c.rest.length :=
  c.suffix_skip.length_le

theorem length_skipComments_le (c : Cursor) : c.skipComments.rest.length ≤ c.rest.length :=
  c.suffix_skipComments.length_le

theorem length_skipSeparators_le (c : Cursor) : c.skipSeparators.rest.length ≤ c.rest.length :=
  c.suffix_skipSeparators.length_le

end Cursor

namespace Rule

/-- A rule that may read nothing does not go back either. -/
theorem Continues.length_le {α : Type} {r : Rule α} (hr : Continues r) {c d : Cursor} {a : α}
    (hc : c.Ended) (h : r.Gives c a d) : d.rest.length ≤ c.rest.length := by
  rcases hr hc h with hd | rfl
  · exact Nat.le_of_lt hd.shorter
  · exact Nat.le_refl _

end Rule

namespace Seam

variable {α : Type} (s : Seam)

/-! ## 1. All rules at once -/

/-- Trees that differ at most in the places of their tokens. -/
def SameTree (t t' : Node) : Prop :=
  t.mapPos (Position.moved s.here) = t'.mapPos (Position.moved s.there)

/-- Lists of such trees. -/
def SameTrees (ns ns' : List Node) : Prop :=
  mapPosAll (Position.moved s.here) ns = mapPosAll (Position.moved s.there) ns'

/-- Such trees, or none on either side. -/
def SameOption (o o' : Option Node) : Prop :=
  mapPosOption (Position.moved s.here) o = mapPosOption (Position.moved s.there) o'

/-- Chains of such trees. -/
def SameBranches (bs bs' : List (Branch Node)) : Prop :=
  mapPosBranches (Position.moved s.here) bs = mapPosBranches (Position.moved s.there) bs'

/-- What a rule reads in front of the seam another one reads on the other side. -/
def Transfers (same : α → α → Prop) (n : Nat) (r r' : Nat → Rule α) : Prop :=
  ∀ {c : Cursor} {a : α} {d c' : Cursor}, s.Faces c c' → (r n).Gives c a d →
    s.left.length ≤ d.rest.length → ∀ k, n ≤ k →
      ∃ a' d', (r' k).Gives c' a' d' ∧ same a a' ∧ s.Faces d d'

/-- What such a rule reads may end right in front of the seam and look on for a comma. So it is left
open only where no comma is behind the seam. -/
def TransfersShut (same : α → α → Prop) (n : Nat) (r r' : Nat → Rule α) : Prop :=
  ∀ {c : Cursor} {a : α} {d c' : Cursor}, s.Faces c c' → (r n).Gives c a d →
    s.left.length ≤ d.rest.length → s.Shut d.rest → ∀ k, n ≤ k →
      ∃ a' d', (r' k).Gives c' a' d' ∧ same a a' ∧ s.Faces d d'

/-- What all rules with budget `n` read carries over. -/
structure Transferred (n : Nat) : Prop where
  expression : s.Transfers s.SameTree n expression expression
  binary : ∀ {least : Nat}, s.Transfers s.SameTree n (binary · least) (binary · least)
  climb : ∀ {least : Nat} {left left' : Node}, s.SameTree left left' →
    s.Transfers s.SameTree n (climb · least left) (climb · least left')
  unary : s.Transfers s.SameTree n unary unary
  members : ∀ {left left' : Node}, s.SameTree left left' →
    s.Transfers s.SameTree n (members · left) (members · left')
  primary : s.Transfers s.SameTree n primary primary
  items : ∀ {close : Kind} {context : String}, close.stops = false →
    s.Transfers s.SameTrees n (items · close context) (items · close context)
  body : ∀ {context : String}, s.Transfers s.SameTrees n (body · context) (body · context)
  bodyItems : ∀ {context : String},
    s.Transfers s.SameTrees n (bodyItems · context) (bodyItems · context)
  statement : ∀ {c : Cursor} {t : Node} {d c' : Cursor}, s.Clear c → s.Faces c c' →
    (statement n).Gives c t d → s.left.length ≤ d.rest.length → s.Shut d.rest → ∀ k, n ≤ k →
      ∃ t' d', (Rule.statement k).Gives c' t' d' ∧ s.SameTree t t' ∧ s.Faces d d'
  arrow : ∀ {relation : Option Relation},
    s.Transfers s.SameTree n (arrow · relation) (arrow · relation)
  blockOrAssignment : s.TransfersShut s.SameTree n blockOrAssignment blockOrAssignment
  moreValues : ∀ {limit : Nat},
    s.TransfersShut s.SameTrees n (moreValues · limit) (moreValues · limit)
  control : s.Transfers s.SameBranches n control control
  elseChain : s.Transfers s.SameBranches n elseChain elseChain
  directive : s.Transfers s.SameTree n directive directive
  execArguments : ∀ {sign sign' : Token} {cmd cmd' args args' dir dir' : Option Node},
    s.Alike sign sign' → s.SameOption cmd cmd' → s.SameOption args args' → s.SameOption dir dir' →
    s.Transfers s.SameTree n (execArguments · sign cmd args dir)
      (execArguments · sign' cmd' args' dir')
  moreExecArguments : ∀ {sign sign' : Token} {cmd cmd' args args' dir dir' : Option Node},
    s.Alike sign sign' → s.SameOption cmd cmd' → s.SameOption args args' → s.SameOption dir dir' →
    s.Transfers s.SameTree n (moreExecArguments · sign cmd args dir)
      (moreExecArguments · sign' cmd' args' dir')
  pipelineItems : s.Transfers s.SameTrees n pipelineItems pipelineItems

variable {s}

theorem transferred_zero : s.Transferred 0 := by
  constructor <;> repeat intro
  all_goals
    rename Rule.Gives _ _ _ _ => h
    exact absurd h (not_gives_exhausted _ _ _)

/-- It is enough to look at budgets that are not used up. -/
theorem Transfers.succ {same : α → α → Prop} {n : Nat} {r r' : Nat → Rule α}
    (h : ∀ {c : Cursor} {a : α} {d c' : Cursor}, s.Faces c c' → (r (n + 1)).Gives c a d →
      s.left.length ≤ d.rest.length → ∀ k, n ≤ k →
        ∃ a' d', (r' (k + 1)).Gives c' a' d' ∧ same a a' ∧ s.Faces d d') :
    s.Transfers same (n + 1) r r' := by
  intro c a d c' hf hr room k hk
  obtain ⟨k, rfl⟩ : ∃ j, k = j + 1 := ⟨k - 1, by omega⟩
  exact h hf hr room k (Nat.le_of_succ_le_succ hk)

/-- A rule that was read with some budget had one, so its equation may be used on both sides. The budget on
the other side is not smaller and is at least one as well. -/
theorem TransfersShut.succ {same : α → α → Prop} {n : Nat} {r r' : Nat → Rule α}
    (h : ∀ {c : Cursor} {a : α} {d c' : Cursor}, s.Faces c c' → (r (n + 1)).Gives c a d →
      s.left.length ≤ d.rest.length → s.Shut d.rest → ∀ k, n ≤ k →
        ∃ a' d', (r' (k + 1)).Gives c' a' d' ∧ same a a' ∧ s.Faces d d') :
    s.TransfersShut same (n + 1) r r' := by
  intro c a d c' hf hr room shut k hk
  obtain ⟨k, rfl⟩ : ∃ j, k = j + 1 := ⟨k - 1, by omega⟩
  exact h hf hr room shut k (Nat.le_of_succ_le_succ hk)

/-- Where a brace is closed in front of the seam, no comma is looked for behind it. -/
theorem Faces.shut {c c' d e : Cursor} (hf : s.Faces c c') (hs : e.rest <:+ c.rest)
    (h : e.Reads (· = .rbrace) d) (room : s.left.length ≤ d.rest.length) : s.Shut e.rest := by
  obtain ⟨front, last, he, hk⟩ := h.read
  obtain ⟨between, hd⟩ :=
    List.suffix_of_suffix_length_le hf.rests.suffix (h.suffix.trans hs) room
  exact .inr ⟨front ++ last :: between, by rw [he, ← hd, List.append_assoc, List.cons_append],
    last, by simp, hk⟩

/-! ### Expressions -/

section Expressions

variable (S : s.Parted) {n : Nat} (T : s.Transferred n)
include S T

/-- A choice carries over with its condition and its two values. Whether the mark follows the condition is
the same on both sides, since no mark stands directly behind the seam. -/
theorem transfers_expression : s.Transfers s.SameTree (n + 1) expression expression := by
  apply Transfers.succ
  intro c t d c' hf h room k hk
  obtain ⟨condition, e, hb, h⟩ := (gives_expression _ _ _ _).1 h
  have he := (forward n).binary (hf.ended S) hb
  rcases h with ⟨hq, rfl, rfl⟩ | ⟨hq, yes, e₁, no, hy, hc, hn, rfl⟩
  · obtain ⟨t', d', hb', ht, hd⟩ := T.binary hf hb room k hk
    have hq' : (d'.peekAt 0).kind ≠ .question := fun h => hq ((hd.kind_iff S rfl).2 h)
    exact ⟨t', d', (gives_expression _ _ _ _).2 ⟨t', d', hb', .inl ⟨hq', rfl, rfl⟩⟩, ht, hd⟩
  · -- What is read first ends in front of the seam, because the rest is read behind it.
    have he₁ := (forward n).expression he.ended.skip hy
    have l₁ := ((forward n).expression he₁.ended.skip hn).shorter
    have l₂ := e₁.length_skip_le
    have l₃ := he₁.shorter
    have l₄ := e.length_skip_le
    obtain ⟨condition', e', hb', hcondition, hfe⟩ := T.binary hf hb (by omega) k hk
    obtain ⟨-, hfs⟩ := hfe.step S (by omega)
    obtain ⟨yes', e₁', hy', hyes, hfe₁⟩ := T.expression hfs hy (by omega) k hk
    obtain ⟨-, hfs₁⟩ := hfe₁.step S (by omega)
    obtain ⟨no', d', hn', hno, hd⟩ := T.expression hfs₁ hn room k hk
    have hq' := (hfe.kind_iff S rfl).1 hq
    have hc' := (hfe₁.kind_iff S rfl).1 hc
    refine ⟨.ternary condition' yes' no', d', (gives_expression _ _ _ _).2
      ⟨condition', e', hb', .inr ⟨hq', yes', e₁', no', hy', hc', hn', rfl⟩⟩, ?_, hd⟩
    simp only [SameTree, mapPos] at hcondition hyes hno ⊢
    rw [hcondition, hyes, hno]

/-- Operands with operators between them carry over with the first operand and with the loop behind it. -/
theorem transfers_binary {least : Nat} :
    s.Transfers s.SameTree (n + 1) (binary · least) (binary · least) := by
  apply Transfers.succ
  intro c t d c' hf h room k hk
  obtain ⟨left, e, hu, hl⟩ := (gives_binary _ _ _ _ _).1 h
  have l₁ := Continues.length_le (forward n).climb ((forward n).unary (hf.ended S) hu).ended hl
  obtain ⟨left', e', hu', hleft, hfe⟩ := T.unary hf hu (by omega) k hk
  obtain ⟨t', d', hl', ht, hd⟩ := T.climb hleft hfe hl room k hk
  exact ⟨t', d', (gives_binary _ _ _ _ _).2 ⟨left', e', hu', hl'⟩, ht, hd⟩

/-- The loop over operators carries over turn by turn. It may end at the seam, because what stands there is
no operator on either side. -/
theorem transfers_climb {least : Nat} {left left' : Node} (hleft : s.SameTree left left') :
    s.Transfers s.SameTree (n + 1) (climb · least left) (climb · least left') := by
  apply Transfers.succ
  intro c t d c' hf h room k hk
  rcases (gives_climb _ _ _ _ _ _).1 h with ⟨ho, rfl, rfl⟩ | ⟨op, right, e, ho, hle, hb, hl⟩
  · exact ⟨left', c', (gives_climb _ _ _ _ _ _).2 (.inl ⟨hf.operator ▸ ho, rfl, rfl⟩), hleft, hf⟩
  · have he := (forward n).binary (hf.ended S).skip hb
    have l₁ := Continues.length_le (forward n).climb he.ended hl
    have l₂ := he.shorter
    have l₃ := c.length_skip_le
    obtain ⟨-, hfs⟩ := hf.step S (by omega)
    obtain ⟨right', e', hb', hright, hfe⟩ := T.binary hfs hb (by omega) k hk
    have hboth : s.SameTree (.binary op left right) (.binary op left' right') := by
      simp only [SameTree, mapPos] at hleft hright ⊢
      rw [hleft, hright]
    obtain ⟨t', d', hl', ht, hd⟩ := T.climb hboth hfe hl room k hk
    exact ⟨t', d', (gives_climb _ _ _ _ _ _).2
      (.inr ⟨op, right', e', hf.operator ▸ ho, hle, hb', hl'⟩), ht, hd⟩

/-- A prefix operator is in front of the seam, since an operand is read behind it. -/
theorem transfers_unary : s.Transfers s.SameTree (n + 1) unary unary := by
  apply Transfers.succ
  intro c t d c' hf h room k hk
  have l₀ := ((forward (n + 1)).unary (hf.ended S) h).shorter
  obtain ⟨halike, hfs⟩ := hf.step S (by omega)
  rcases (gives_unary _ _ _ _).1 h with ⟨op, operand, ho, hu, rfl⟩ | ⟨ho, left, e, hp, hm⟩
  · obtain ⟨operand', d', hu', hoperand, hd⟩ := T.unary hfs hu room k hk
    refine ⟨.unary op operand', d', (gives_unary _ _ _ _).2
      (.inl ⟨op, operand', halike.kind ▸ ho, hu', rfl⟩), ?_, hd⟩
    simp only [SameTree, mapPos] at hoperand ⊢
    rw [hoperand]
  · have l₁ := Continues.length_le (forward n).members
      ((forward n).primary (hf.ended S) hp).ended hm
    obtain ⟨left', e', hp', hleft, hfe⟩ := T.primary hf hp (by omega) k hk
    obtain ⟨t', d', hm', ht, hd⟩ := T.members hleft hfe hm room k hk
    exact ⟨t', d', (gives_unary _ _ _ _).2 (.inr ⟨halike.kind ▸ ho, left', e', hp', hm'⟩), ht, hd⟩

/-- The loop over members ends at the seam as it does elsewhere: no dot stands there. -/
theorem transfers_members {left left' : Node} (hleft : s.SameTree left left') :
    s.Transfers s.SameTree (n + 1) (members · left) (members · left') := by
  apply Transfers.succ
  intro c t d c' hf h room k hk
  rcases (gives_members _ _ _ _ _).1 h with ⟨hd, rfl, rfl⟩ | ⟨hd, hn, hm⟩
  · have hd' : (c'.peekAt 0).kind ≠ .dot := fun h => hd ((hf.kind_iff S rfl).2 h)
    exact ⟨left', c', (gives_members _ _ _ _ _).2 (.inl ⟨hd', rfl, rfl⟩), hleft, hf⟩
  · obtain ⟨-, hfs⟩ := hf.step S (hf.room S hd Kind.noConfusion Kind.noConfusion)
    obtain ⟨halike, hfs₁⟩ := hfs.step S (hfs.room_of_isName S hn)
    have hmember : s.SameTree (.member left (c.skip.peekAt 0).literal)
        (.member left' (c'.skip.peekAt 0).literal) := by
      simp only [SameTree, mapPos] at hleft ⊢
      rw [hleft, halike.literal]
    obtain ⟨t', d', hm', ht, hd₁⟩ := T.members hmember hfs₁ hm room k hk
    exact ⟨t', d', (gives_members _ _ _ _ _).2
      (.inr ⟨(hf.kind_iff S rfl).1 hd, halike.isName ▸ hn, hm'⟩), ht, hd₁⟩

omit S T in
theorem sameTree_envReference (text : String) :
    s.SameTree (envReference text) (envReference text) := by
  simp only [SameTree, envReference, mapPos]

/-- An operand carries over in each of its forms. That a word is not the name of a call is the only thing
that depends on what stands behind the operand, and no bracket stands behind the seam. -/
theorem transfers_primary : s.Transfers s.SameTree (n + 1) primary primary := by
  apply Transfers.succ
  intro c t d c' hf h room k hk
  -- An operand is a token at least and ends in front of the seam, so its first token stands there.
  have l₀ := ((forward (n + 1)).primary (hf.ended S) h).shorter
  obtain ⟨halike, hfs⟩ := hf.step S (by omega)
  cases (gives_primary _ _ _ _).1 h with
  | number hkind hv =>
    exact ⟨_, _, (gives_primary _ _ _ _).2
      (.number (halike.kind ▸ hkind) (halike.literal ▸ hv)), rfl, hfs⟩
  | str hkind =>
    refine ⟨_, _, (gives_primary _ _ _ _).2 (.str (halike.kind ▸ hkind)), ?_, hfs⟩
    simp only [SameTree, mapPos, halike.literal, halike.quote]
  | heredoc hkind =>
    refine ⟨_, _, (gives_primary _ _ _ _).2 (.heredoc (halike.kind ▸ hkind)), ?_, hfs⟩
    simp only [SameTree, mapPos, halike.literal, halike.delimiter]
  | bool hkind =>
    refine ⟨_, _, (gives_primary _ _ _ _).2 (.bool (halike.kind ▸ hkind)), ?_, hfs⟩
    simp only [SameTree, mapPos, halike.literal]
  | null hkind hn =>
    exact ⟨_, _, (gives_primary _ _ _ _).2
      (.null (halike.kind ▸ hkind) (halike.literal ▸ hn)), rfl, hfs⟩
  | call hkind hn hp hl ha =>
    obtain ⟨halike₁, hfs₁⟩ := hfs.step S (hfs.room S hp Kind.noConfusion Kind.noConfusion)
    obtain ⟨args', d', ha', hargs, hd⟩ := T.items rfl hfs₁ ha room k hk
    refine ⟨_, d', (gives_primary _ _ _ _).2 (.call (halike.kind ▸ hkind) (halike.literal ▸ hn)
      (halike₁.kind ▸ hp) ((halike.line_eq_iff halike₁).1 hl) ha'), ?_, hd⟩
    simp only [SameTree, SameTrees, mapPos] at hargs ⊢
    rw [hargs, halike.literal, halike.pos]
  | ident hkind hn hp =>
    refine ⟨_, _, (gives_primary _ _ _ _).2 (.ident (halike.kind ▸ hkind) (halike.literal ▸ hn) ?_),
      ?_, hfs⟩
    · -- A parenthesis there is one here as well, and on the same line.
      rintro ⟨hparen, hline⟩
      have hparen := (hfs.kind_iff S rfl).2 hparen
      obtain ⟨halike₁, -⟩ := hfs.step S (hfs.room S hparen Kind.noConfusion Kind.noConfusion)
      exact hp ⟨hparen, (halike.line_eq_iff halike₁).2 hline⟩
    · simp only [SameTree, mapPos, halike.literal]
  | envRef hkind =>
    refine ⟨_, _, (gives_primary _ _ _ _).2 (.envRef (halike.kind ▸ hkind)), ?_, hfs⟩
    rw [halike.literal]
    exact sameTree_envReference _
  | @group inner e hkind hi hp =>
    have l₁ := e.length_skip_le
    obtain ⟨inner', e', hi', hinner, hfe⟩ := T.expression hfs hi (by omega) k hk
    obtain ⟨halike₁, hd⟩ := hfe.step S (hfe.room S hp Kind.noConfusion Kind.noConfusion)
    refine ⟨.group inner', e'.skip, (gives_primary _ _ _ _).2
      (.group (halike.kind ▸ hkind) hi' (halike₁.kind ▸ hp)), ?_, hd⟩
    simp only [SameTree, mapPos] at hinner ⊢
    rw [hinner]
  | list hkind hi =>
    obtain ⟨elements', d', hi', helements, hd⟩ := T.items rfl hfs hi room k hk
    refine ⟨_, d', (gives_primary _ _ _ _).2 (.list (halike.kind ▸ hkind) hi'), ?_, hd⟩
    simp only [SameTree, SameTrees, mapPos] at helements ⊢
    rw [helements]
  | entries hkind hb =>
    obtain ⟨statements', d', hb', hstatements, hd⟩ := T.body hf hb room k hk
    refine ⟨_, d', (gives_primary _ _ _ _).2 (.entries (halike.kind ▸ hkind) hb'), ?_, hd⟩
    simp only [SameTree, SameTrees, mapPos_ofEntries] at hstatements ⊢
    rw [hstatements]
  | directive hkind hd =>
    obtain ⟨t', d', hd', ht, hd⟩ := T.directive hf hd room k hk
    exact ⟨t', d', (gives_primary _ _ _ _).2 (.directive (halike.kind ▸ hkind) hd'), ht, hd⟩

/-- Items up to a closing token, which is in front of the seam with everything between the brackets. -/
theorem transfers_items {close : Kind} {context : String} (hclose : close.stops = false) :
    s.Transfers s.SameTrees (n + 1) (items · close context) (items · close context) := by
  have hp : IsProper close := fun h => by simp [h, Kind.stops, Kind.begins] at hclose
  have he : close ≠ .eof := fun h => by simp [h, Kind.stops, Kind.begins] at hclose
  apply Transfers.succ
  intro c ns d c' hf h room k hk
  have hcs := (hf.ended S).skipComments
  rcases (gives_items _ _ _ _ _ _).1 h with ⟨hkind, rfl, rfl⟩ | ⟨hkind, item, e, hi, h⟩
  · have l₁ := (hcs.reads_skip (p := fun _ => True) hkind he trivial).shorter
    have hfc := hf.skipComments S (by omega)
    obtain ⟨halike, hd⟩ := hfc.step S (by omega)
    exact ⟨[], c'.skipComments.skip, (gives_items _ _ _ _ _ _).2
      (.inl ⟨halike.kind ▸ hkind, rfl, rfl⟩), rfl, hd⟩
  · have hitem := (forward n).expression hcs hi
    have hes := hitem.ended.skipComments
    have l₁ := hitem.shorter
    have l₂ := e.length_skipComments_le
    have l₃ := e.skipComments.length_skip_le
    rcases h with ⟨hcomma, others, ho, rfl⟩ | ⟨hcomma, hend, rfl, rfl⟩
    -- A comma: the item and the others are both in front of the seam.
    · have l₄ := ((forward n).items hp he hes.skip ho).shorter
      have hfc := hf.skipComments S (by omega)
      have hkind' : (c'.skipComments.peekAt 0).kind ≠ close :=
        fun h => hkind ((hfc.kind_iff S hclose).2 h)
      obtain ⟨item', e', hi', hitem', hfe⟩ := T.expression hfc hi (by omega) k hk
      have hfec := hfe.skipComments S (by omega)
      obtain ⟨halike, hfs⟩ := hfec.step S (by omega)
      obtain ⟨others', d', ho', hothers, hd⟩ := T.items hclose hfs ho room k hk
      refine ⟨item' :: others', d', (gives_items _ _ _ _ _ _).2 (.inr ⟨hkind', item', e', hi',
        .inl ⟨halike.kind ▸ hcomma, others', ho', rfl⟩⟩), ?_, hd⟩
      simp only [SameTree, SameTrees, mapPosAll] at hitem' hothers ⊢
      rw [hitem', hothers]
    -- The closing token, the last one before the seam can be.
    · have l₄ := (hes.reads_skip (p := fun _ => True) hend he trivial).shorter
      have hfc := hf.skipComments S (by omega)
      have hkind' : (c'.skipComments.peekAt 0).kind ≠ close :=
        fun h => hkind ((hfc.kind_iff S hclose).2 h)
      obtain ⟨item', e', hi', hitem', hfe⟩ := T.expression hfc hi (by omega) k hk
      have hfec := hfe.skipComments S (by omega)
      obtain ⟨halike, hd⟩ := hfec.step S (by omega)
      refine ⟨[item'], e'.skipComments.skip, (gives_items _ _ _ _ _ _).2 (.inr ⟨hkind', item', e',
        hi', .inr ⟨halike.kind ▸ hcomma, halike.kind ▸ hend, rfl, rfl⟩⟩), ?_, hd⟩
      simp only [SameTree, SameTrees, mapPosAll] at hitem' ⊢
      rw [hitem']

end Expressions

/-! ### Statements -/

section Statements

variable (S : s.Parted) {n : Nat} (T : s.Transferred n)
include S T

/-- The statements of a body. They begin behind a brace that is in front of the seam. -/
theorem transfers_body {context : String} :
    s.Transfers s.SameTrees (n + 1) (body · context) (body · context) := by
  apply Transfers.succ
  intro c ns d c' hf h room k hk
  obtain ⟨hkind, hb⟩ := (gives_body _ _ _ _ _).1 h
  obtain ⟨halike, hfs⟩ := hf.step S (hf.room S hkind Kind.noConfusion Kind.noConfusion)
  obtain ⟨ns', d', hb', hns, hd⟩ := T.bodyItems hfs hb room k hk
  exact ⟨ns', d', (gives_body _ _ _ _ _).2 ⟨halike.kind ▸ hkind, hb'⟩, hns, hd⟩

/-- Statements up to a brace. No statement of them ends at the seam, as the brace stands in front of it
too. -/
theorem transfers_bodyItems {context : String} :
    s.Transfers s.SameTrees (n + 1) (bodyItems · context) (bodyItems · context) := by
  apply Transfers.succ
  intro c ns d c' hf h room k hk
  have hcs := (hf.ended S).skipSeparators
  rcases (gives_bodyItems _ _ _ _ _).1 h with ⟨hkind, rfl, rfl⟩ |
    ⟨hkind, heof, first, e, others, hs, ho, rfl⟩
  · have l₁ := (hcs.reads_skip (p := fun _ => True) hkind Kind.noConfusion trivial).shorter
    have hfc := hf.skipSeparators S (by omega)
    obtain ⟨halike, hd⟩ := hfc.step S (by omega)
    exact ⟨[], c'.skipSeparators.skip, (gives_bodyItems _ _ _ _ _).2
      (.inl ⟨halike.kind ▸ hkind, rfl, rfl⟩), rfl, hd⟩
  · have he := (forward n).statement hcs hs
    have hclose := bodyItems_reads_rbrace n he.ended ho
    have l₁ := he.shorter
    have l₂ := hclose.shorter
    have hfc := hf.skipSeparators S (by omega)
    obtain ⟨halike, -⟩ := hfc.step S (by omega)
    -- A body is closed in front of the seam, so no statement of it touches the seam.
    have hclear : s.Clear c.skipSeparators := clear_of_length (by omega)
    have hshut := hfc.shut he.suffix hclose room
    obtain ⟨first', e', hs', hfirst, hfe⟩ := T.statement hclear hfc hs (by omega) hshut k hk
    obtain ⟨others', d', ho', hothers, hd⟩ := T.bodyItems hfe ho room k hk
    refine ⟨first' :: others', d', (gives_bodyItems _ _ _ _ _).2 (.inr ⟨halike.kind ▸ hkind,
      halike.kind ▸ heof, first', e', others', hs', ho', rfl⟩), ?_, hd⟩
    simp only [SameTree, SameTrees, mapPosAll] at hfirst hothers ⊢
    rw [hfirst, hothers]

/-- A statement. The one thing that could go wrong at its beginning is that it takes the name of a relation
in front of the seam for that of an arrow behind it, and there the cursor is clear of that. -/
theorem transfers_statement {c : Cursor} {t : Node} {d c' : Cursor} (clear : s.Clear c)
    (hf : s.Faces c c') (h : (Rule.statement (n + 1)).Gives c t d)
    (room : s.left.length ≤ d.rest.length) (shut : s.Shut d.rest) (k : Nat) (hk : n + 1 ≤ k) :
    ∃ t' d', (Rule.statement k).Gives c' t' d' ∧ s.SameTree t t' ∧ s.Faces d d' := by
  obtain ⟨k, rfl⟩ : ∃ j, k = j + 1 := ⟨k - 1, by omega⟩
  have hk := Nat.le_of_succ_le_succ hk
  have l₀ := ((forward (n + 1)).statement (hf.ended S) h).shorter
  obtain ⟨halike, hfs⟩ := hf.step S (by omega)
  have harrow := hf.arrowAhead? S (by omega) clear
  cases (gives_statement _ _ _ _).1 h with
  | comment hkind =>
    refine ⟨_, _, (gives_statement _ _ _ _).2 (.comment (halike.kind ▸ hkind)), ?_, hfs⟩
    simp only [SameTree, mapPos, halike.literal]
  | directive hkind hd =>
    obtain ⟨t', d', hd', ht, hd⟩ := T.directive hf hd room k hk
    exact ⟨t', d', (gives_statement _ _ _ _).2 (.directive (halike.kind ▸ hkind) hd'), ht, hd⟩
  | control hkind hc =>
    obtain ⟨branches', d', hc', hbranches, hd⟩ := T.control hf hc room k hk
    refine ⟨_, d', (gives_statement _ _ _ _).2 (.control (halike.kind ▸ hkind) hc'), ?_, hd⟩
    simp only [SameTree, SameBranches, mapPos] at hbranches ⊢
    rw [hbranches]
  | arrow hname ha hr =>
    obtain ⟨t', d', hr', ht, hd⟩ := T.arrow hf hr room k hk
    exact ⟨t', d', (gives_statement _ _ _ _).2
      (.arrow (halike.isName ▸ hname) (harrow ▸ ha) hr'), ht, hd⟩
  | named hname ha hb =>
    obtain ⟨t', d', hb', ht, hd⟩ := T.blockOrAssignment hf hb room shut k hk
    exact ⟨t', d', (gives_statement _ _ _ _).2
      (.named (halike.isName ▸ hname) (harrow ▸ ha) hb'), ht, hd⟩

/-- An arrow carries over with its properties. If it ends at the seam it has none, and on the other side no
brace opens there either. -/
theorem transfers_arrow {relation : Option Relation} :
    s.Transfers s.SameTree (n + 1) (arrow · relation) (arrow · relation) := by
  apply Transfers.succ
  intro c t d c' hf h room k hk
  have l₀ := ((forward (n + 1)).arrow (hf.ended S) h).shorter
  obtain ⟨halike, hfs⟩ := hf.step S (by omega)
  obtain ⟨e, rfl, hs, ha, ht, properties, hp, rfl⟩ := (gives_arrow _ _ _ _ _).1 h
  -- The relation is a token of its own if there is one.
  have hfe : s.Faces (if relation.isSome = true then c.skip else c)
      (if relation.isSome = true then c'.skip else c') := by
    split
    · exact hfs
    · exact hf
  obtain ⟨halike₁, hf₁⟩ := hfe.step S (hfe.room_of_isName S hs)
  obtain ⟨halike₂, hf₂⟩ := hf₁.step S (hf₁.room S ha Kind.noConfusion Kind.noConfusion)
  obtain ⟨halike₃, hf₃⟩ := hf₂.step S (hf₂.room_of_isName S ht)
  rcases hp with ⟨hkind, hb⟩ | ⟨hkind, rfl, rfl⟩
  · obtain ⟨properties', d', hb', hproperties, hd⟩ := T.body hf₃ hb room k hk
    refine ⟨_, d', (gives_arrow _ _ _ _ _).2 ⟨_, rfl, halike₁.isName ▸ hs, halike₂.kind ▸ ha,
      halike₃.isName ▸ ht, properties', .inl ⟨(hf₃.kind_iff S rfl).1 hkind, hb'⟩, rfl⟩, ?_, hd⟩
    simp only [SameTree, SameTrees, mapPos] at hproperties ⊢
    rw [hproperties, halike₁.literal, halike₃.literal, halike.pos]
  · have hkind' : _ ≠ Kind.lbrace := fun h => hkind ((hf₃.kind_iff S rfl).2 h)
    refine ⟨_, _, (gives_arrow _ _ _ _ _).2 ⟨_, rfl, halike₁.isName ▸ hs, halike₂.kind ▸ ha,
      halike₃.isName ▸ ht, [], .inr ⟨hkind', rfl, rfl⟩, rfl⟩, ?_, hf₃⟩
    simp only [SameTree, mapPos, mapPosAll]
    rw [halike₁.literal, halike₃.literal, halike.pos]

omit S T in
/-- Lists of the same trees are equally long. -/
theorem SameTrees.length {ns ns' : List Node} (h : s.SameTrees ns ns') :
    ns.length = ns'.length := by
  have hl := congrArg List.length h
  simpa only [mapPosAll_eq, List.length_map] using hl

/-- Targets and the values behind their equals sign. -/
theorem transfers_values {targets : List Target} {sign : Token} {rest : List Token} {first : Node}
    {others : List Node} {c c' e d : Cursor} (hf : s.Faces c c')
    (hc : (c.peekAt 1).kind = .comma) (ht : targetList? c.rest = some (targets, sign, rest))
    (hv : (expression n).Gives ⟨sign.pos.line, rest⟩ first e)
    (ho : (moreValues n (targets.length - 1)).Gives e others d)
    (room : s.left.length ≤ d.rest.length) (shut : s.Shut d.rest) (k : Nat) (hk : n ≤ k) :
    ∃ targets' sign' rest' first' e' others' d',
      targetList? c'.rest = some (targets', sign', rest') ∧
      (expression k).Gives ⟨sign'.pos.line, rest'⟩ first' e' ∧
      (moreValues k (targets'.length - 1)).Gives e' others' d' ∧
      (targets.map fun t => (⟨t.name, t.pos.moved s.here⟩ : Target)) =
        targets'.map (fun t => ⟨t.name, t.pos.moved s.there⟩) ∧
      targets.length = targets'.length ∧ s.SameTree first first' ∧ s.SameTrees others others' ∧
      s.Faces d d' := by
  have hsign : Cursor.Ended ⟨sign.pos.line, rest⟩ :=
    (targets_of_targetList? (hf.ended S) ht hc).2.2
  have he := (forward n).expression hsign hv
  have l₁ := he.shorter
  have l₂ := Continues.length_le (forward n).moreValues he.ended ho
  obtain ⟨targets', sign', rest', ht', htargets, hfs⟩ := hf.rests.targetList? S ht
    (Nat.le_trans room (Nat.le_of_lt (Nat.lt_of_le_of_lt l₂ l₁)))
  have hlength : targets.length = targets'.length := by
    simpa only [List.length_map] using congrArg List.length htargets
  obtain ⟨first', e', hv', hfirst, hfe⟩ := T.expression hfs hv (by omega) k hk
  obtain ⟨others', d', ho', hothers, hd⟩ := T.moreValues hfe ho room shut k hk
  exact ⟨targets', sign', rest', first', e', others', d', ht', hv', hlength ▸ ho', htargets,
    hlength, hfirst, hothers, hd⟩

/-- A statement that begins with a name is the one construct that may look past its end: behind its value it
looks for a comma and another value, and behind its name for further targets. A shut seam is not followed by
a comma, so both looks end in the same way on the two sides. The list of targets is looked for in the tokens
themselves and not by a rule, so it has to be carried over separately. -/
theorem transfers_blockOrAssignment :
    s.TransfersShut s.SameTree (n + 1) blockOrAssignment blockOrAssignment := by
  apply TransfersShut.succ
  intro c t d c' hf h room shut k hk
  have l₀ := ((forward (n + 1)).blockOrAssignment (hf.ended S) h).shorter
  obtain ⟨halike, hfs⟩ := hf.step S (by omega)
  have hlabel := hf.labelAhead S (by omega)
  have hnext : ∀ {kind : Kind}, kind.stops = false →
      ((c.peekAt 1).kind = kind ↔ (c'.peekAt 1).kind = kind) := by
    intro kind hkind
    rw [peekAt_succ, peekAt_succ]
    exact hfs.kind_iff S hkind
  have hcomma : (c.peekAt 1).kind = .comma → (c'.peekAt 1).kind = .comma := by
    rw [peekAt_succ, peekAt_succ]
    exact fun hn => hfs.kind_eq S hn Kind.noConfusion Kind.noConfusion
  cases (gives_blockOrAssignment _ _ _ _).1 h with
  | block hn hb =>
    obtain ⟨statements', d', hb', hstatements, hd⟩ := T.body hfs hb room k hk
    refine ⟨_, d', (gives_blockOrAssignment _ _ _ _).2 (.block ((hnext rfl).1 hn) hb'), ?_, hd⟩
    simp only [SameTree, SameTrees, mapPos_ofBlock] at hstatements ⊢
    rw [hstatements, halike.literal, halike.pos]
  | labelled hn hl h2 hb =>
    obtain ⟨hn', hl', h2'⟩ := hlabel.1 ⟨hn, hl, h2⟩
    rw [peekAt_succ c 0] at hn ⊢
    obtain ⟨halike₁, hfs₁⟩ := hfs.step S (hfs.room_of_isName S hn)
    obtain ⟨statements', d', hb', hstatements, hd⟩ := T.body hfs₁ hb room k hk
    refine ⟨_, d', (gives_blockOrAssignment _ _ _ _).2 (.labelled hn' hl' h2' hb'), ?_, hd⟩
    simp only [SameTree, SameTrees, mapPos_ofBlock] at hstatements ⊢
    rw [hstatements, halike.literal, halike.pos, halike₁.literal, peekAt_succ c' 0]
  | assign hn hv =>
    have hroom : s.left.length < c.skip.rest.length := by
      rw [peekAt_succ] at hn
      rcases hn with hn | hn
      · exact hfs.room S hn Kind.noConfusion Kind.noConfusion
      · exact hfs.room S hn Kind.noConfusion Kind.noConfusion
    obtain ⟨halike₁, hfs₁⟩ := hfs.step S hroom
    obtain ⟨value', d', hv', hvalue, hd⟩ := T.expression hfs₁ hv room k hk
    have hn' : (c'.peekAt 1).kind = .assign ∨ (c'.peekAt 1).kind = .colon :=
      hn.imp (hnext rfl).1 (hnext rfl).1
    have hcolon : (c.peekAt 1).kind = .colon ↔ (c'.peekAt 1).kind = .colon := hnext rfl
    refine ⟨_, d', (gives_blockOrAssignment _ _ _ _).2 (.assign hn' hv'), ?_, hd⟩
    simp only [SameTree, mapPos] at hvalue ⊢
    simp only [hvalue, halike.literal, halike.pos, hcolon]
  | assignEach hkind hn ht hv ho hl =>
    obtain ⟨targets', sign', rest', first', e', others', d', ht', hv', ho', htargets, hlength,
      hfirst, hothers, hd⟩ := transfers_values S T hf hn ht hv ho room shut k hk
    have hl' : others'.length + 1 = targets'.length := by
      rw [← hothers.length, ← hlength]
      exact hl
    refine ⟨_, d', (gives_blockOrAssignment _ _ _ _).2
      (.assignEach (halike.kind ▸ hkind) (hcomma hn) ht' hv' ho' hl'), ?_, hd⟩
    simp only [SameTree, SameTrees, mapPos, mapPosPairs_zip, mapPosAll] at hfirst hothers ⊢
    rw [hfirst, hothers, htargets]
  | destructure hkind hn ht hv ho hl =>
    obtain ⟨targets', sign', rest', first', e', others', d', ht', hv', ho', htargets, hlength,
      hfirst, hothers, hd⟩ := transfers_values S T hf hn ht hv ho room shut k hk
    obtain rfl : others' = [] := List.length_eq_zero_iff.1 hothers.length.symm
    refine ⟨_, d', (gives_blockOrAssignment _ _ _ _).2
      (.destructure (halike.kind ▸ hkind) (hcomma hn) ht' hv' ho' (hlength ▸ hl)), ?_, hd⟩
    simp only [SameTree, mapPos] at hfirst ⊢
    rw [hfirst, htargets]
  | flag hkind hb hl ha ht =>
    have hb' : (c'.peekAt 1).kind ≠ .lbrace := fun h => hb ((hnext rfl).2 h)
    have ha' : ¬((c'.peekAt 1).kind = .assign ∨ (c'.peekAt 1).kind = .colon) :=
      fun h => ha (h.imp (hnext rfl).2 (hnext rfl).2)
    -- A flag stands in front of the seam, so the search for targets does not begin at the seam.
    have hseam : c.rest = s.left → targetList? s.right = none := by
      intro h
      rw [h] at l₀
      omega
    have hshut : s.Shut c.rest := by
      obtain ⟨x, us, hrest⟩ := List.exists_cons_of_ne_nil (hf.ended S).ne_nil
      have hus : us ≠ [] := by
        rintro rfl
        rw [hrest, List.length_singleton] at l₀
        exact S.left_ne_nil (List.length_eq_zero_iff.1 (by omega))
      rw [skip_of_rest hrest hus] at shut
      exact hrest ▸ shut.cons x
    refine ⟨_, _, (gives_blockOrAssignment _ _ _ _).2 (.flag (halike.kind ▸ hkind) hb'
      (fun h => hl (hlabel.2 h)) ha' (hf.rests.targetList?_none S hseam hshut ht)), ?_, hfs⟩
    simp only [SameTree, mapPos, halike.literal, halike.pos]

/-- More values, each behind a comma. The last comma is in front of the seam and the next one is not behind
it. -/
theorem transfers_moreValues {limit : Nat} :
    s.TransfersShut s.SameTrees (n + 1) (moreValues · limit) (moreValues · limit) := by
  apply TransfersShut.succ
  intro c ns d c' hf h room shut k hk
  cases limit with
  | zero =>
    obtain ⟨rfl, rfl⟩ := (gives_moreValues_zero _ _ _ _).1 h
    exact ⟨[], c', (gives_moreValues_zero _ _ _ _).2 ⟨rfl, rfl⟩, rfl, hf⟩
  | succ limit =>
    rcases (gives_moreValues _ _ _ _ _).1 h with ⟨hkind, rfl, rfl⟩ |
      ⟨hkind, value, e, others, hv, ho, rfl⟩
    · have hkind' : (c'.peekAt 0).kind ≠ .comma := fun h => hkind ((hf.comma_iff S shut).2 h)
      exact ⟨[], c', (gives_moreValues _ _ _ _ _).2 (.inl ⟨hkind', rfl, rfl⟩), rfl, hf⟩
    · have he := (forward n).expression (hf.ended S).skip hv
      have l₁ := Continues.length_le (forward n).moreValues he.ended ho
      obtain ⟨-, hfs⟩ := hf.step S (hf.room S hkind Kind.noConfusion Kind.noConfusion)
      obtain ⟨value', e', hv', hvalue, hfe⟩ := T.expression hfs hv (by omega) k hk
      obtain ⟨others', d', ho', hothers, hd⟩ := T.moreValues hfe ho room shut k hk
      refine ⟨value' :: others', d', (gives_moreValues _ _ _ _ _).2
        (.inr ⟨hf.kind_eq S hkind Kind.noConfusion Kind.noConfusion, value', e', others', hv', ho',
          rfl⟩), ?_, hd⟩
      simp only [SameTree, SameTrees, mapPosAll] at hvalue hothers ⊢
      rw [hvalue, hothers]

/-- A chain carries over with its condition, its body and the links that follow. -/
theorem transfers_control : s.Transfers s.SameBranches (n + 1) control control := by
  apply Transfers.succ
  intro c bs d c' hf h room k hk
  have l₀ := ((forward (n + 1)).control (hf.ended S) h).shorter
  obtain ⟨halike, hfs⟩ := hf.step S (by omega)
  obtain ⟨condition, e, statements, e₁, others, hc, hb, ho, rfl⟩ := (gives_control _ _ _ _).1 h
  have he := (forward n).expression (hf.ended S).skip hc
  have he₁ := (forward n).body he.ended hb
  have l₁ := he₁.shorter
  have l₂ := Continues.length_le (forward n).elseChain he₁.ended ho
  obtain ⟨condition', e', hc', hcondition, hfe⟩ := T.expression hfs hc (by omega) k hk
  obtain ⟨statements', e₁', hb', hstatements, hfe₁⟩ := T.body hfe hb (by omega) k hk
  obtain ⟨others', d', ho', hothers, hd⟩ := T.elseChain hfe₁ ho room k hk
  refine ⟨_, d', (gives_control _ _ _ _).2
    ⟨condition', e', statements', e₁', others', hc', hb', ho', rfl⟩, ?_, hd⟩
  simp only [SameTree, SameTrees, SameBranches, mapPosBranches, mapPosOption, mapPos_ungroup]
    at hcondition hstatements hothers ⊢
  rw [hcondition, hstatements, hothers, halike.pos]

/-- The links of a chain. That a keyword goes on the chain is seen on both sides or on none, since none
stands behind the seam. -/
theorem transfers_elseChain : s.Transfers s.SameBranches (n + 1) elseChain elseChain := by
  apply Transfers.succ
  intro c bs d c' hf h room k hk
  have hcs := (hf.ended S).skipComments
  have l₁ := c.skipComments.length_skip_le
  rcases (gives_elseChain _ _ _ _).1 h with ⟨ha, rfl, rfl⟩ | ⟨ha, h⟩
  · exact ⟨[], c', (gives_elseChain _ _ _ _).2 (.inl ⟨hf.elseAhead S ▸ ha, rfl, rfl⟩), rfl, hf⟩
  · have ha' : elseAhead c' = true := hf.elseAhead S ▸ ha
    rcases h with ⟨hkind, h⟩ | ⟨hkind, h⟩
    · have l₂ := ((forward n).control hcs h).shorter
      have hfc := hf.skipComments S (by omega)
      obtain ⟨bs', d', h', hbs, hd⟩ := T.control hfc h room k hk
      exact ⟨bs', d', (gives_elseChain _ _ _ _).2
        (.inr ⟨ha', .inl ⟨(hfc.kind_iff S rfl).1 hkind, h'⟩⟩), hbs, hd⟩
    · rcases h with ⟨hif, h⟩ | ⟨hif, statements, hb, rfl⟩
      · have l₂ := ((forward n).control hcs.skip h).shorter
        have hfc := hf.skipComments S (by omega)
        obtain ⟨halike, hfs⟩ := hfc.step S (by omega)
        obtain ⟨halike₁, -⟩ := hfs.step S (by omega)
        obtain ⟨bs', d', h', hbs, hd⟩ := T.control hfs h room k hk
        rw [peekAt_succ] at hif
        refine ⟨bs', d', (gives_elseChain _ _ _ _).2 (.inr ⟨ha', .inr ⟨halike.kind ▸ hkind,
          .inl ⟨?_, h'⟩⟩⟩), hbs, hd⟩
        rw [peekAt_succ]
        exact halike₁.kind ▸ hif
      · have l₂ := ((forward n).body hcs.skip hb).shorter
        have hfc := hf.skipComments S (by omega)
        obtain ⟨halike, hfs⟩ := hfc.step S (by omega)
        obtain ⟨halike₁, -⟩ := hfs.step S (by omega)
        obtain ⟨statements', d', hb', hstatements, hd⟩ := T.body hfs hb room k hk
        rw [peekAt_succ] at hif
        refine ⟨_, d', (gives_elseChain _ _ _ _).2 (.inr ⟨ha', .inr ⟨halike.kind ▸ hkind,
          .inr ⟨?_, statements', hb', rfl⟩⟩⟩), ?_, hd⟩
        · rw [peekAt_succ]
          exact halike₁.kind ▸ hif
        · simp only [SameTrees, SameBranches, mapPosBranches, mapPosOption] at hstatements ⊢
          rw [hstatements, halike.pos]

end Statements

/-! ### Directives -/

section Directives

variable (S : s.Parted) {n : Nat} (T : s.Transferred n)
include S T

/-- A directive carries over with what its name asks for. -/
theorem transfers_directive : s.Transfers s.SameTree (n + 1) directive directive := by
  apply Transfers.succ
  intro c t d c' hf h room k hk
  obtain ⟨hsign, hname, h⟩ := (gives_directive _ _ _ _).1 h
  obtain ⟨halike, hfs⟩ := hf.step S (hf.room S hsign Kind.noConfusion Kind.noConfusion)
  obtain ⟨halike₁, hfs₁⟩ := hfs.step S (hfs.room S hname Kind.noConfusion Kind.noConfusion)
  have hsign' := halike.kind ▸ hsign
  have hname' := halike₁.kind ▸ hname
  cases h with
  | inclusion hn ht =>
    obtain ⟨target', d', ht', htarget, hd⟩ := T.expression hfs₁ ht room k hk
    refine ⟨_, d', (gives_directive _ _ _ _).2
      ⟨hsign', hname', .inclusion (halike₁.literal ▸ hn) ht'⟩, ?_, hd⟩
    simp only [SameTree, mapPos] at htarget ⊢
    rw [htarget, halike.pos]
  | exec hn hp ha =>
    obtain ⟨halike₂, hfs₂⟩ := hfs₁.step S (hfs₁.room S hp Kind.noConfusion Kind.noConfusion)
    have hnone : s.SameOption none none := rfl
    obtain ⟨t', d', ha', ht, hd⟩ := T.execArguments halike hnone hnone hnone hfs₂ ha room k hk
    exact ⟨t', d', (gives_directive _ _ _ _).2
      ⟨hsign', hname', .exec (halike₁.literal ▸ hn) (halike₂.kind ▸ hp) ha'⟩, ht, hd⟩
  | pipeline hn hb hi =>
    obtain ⟨halike₂, hfs₂⟩ := hfs₁.step S (hfs₁.room S hb Kind.noConfusion Kind.noConfusion)
    obtain ⟨statements', d', hi', hstatements, hd⟩ := T.pipelineItems hfs₂ hi room k hk
    refine ⟨_, d', (gives_directive _ _ _ _).2
      ⟨hsign', hname', .pipeline (halike₁.literal ▸ hn) (halike₂.kind ▸ hb) hi'⟩, ?_, hd⟩
    simp only [SameTree, SameTrees, mapPos] at hstatements ⊢
    rw [hstatements, halike.pos]

omit S T in
/-- The arguments of `@exec` carry over together. -/
theorem transfers_execNode {sign sign' : Token} {cmd cmd' args args' dir dir' : Option Node}
    (hsign : s.Alike sign sign') (hcmd : s.SameOption cmd cmd') (hargs : s.SameOption args args')
    (hdir : s.SameOption dir dir') {c d : Cursor} {t : Node}
    (h : (execNode sign cmd args dir).Gives c t d) (c' : Cursor) :
    d = c ∧ ∃ t', (execNode sign' cmd' args' dir').Gives c' t' c' ∧ s.SameTree t t' := by
  obtain ⟨program, rfl, rfl, rfl⟩ := (gives_execNode _ _ _ _ _ _ _).1 h
  cases cmd' with
  | none => simp [SameOption, mapPosOption] at hcmd
  | some program' =>
    refine ⟨rfl, _, (gives_execNode _ _ _ _ _ _ _).2 ⟨program', rfl, rfl, rfl⟩, ?_⟩
    simp only [SameOption, mapPosOption, Option.some.injEq] at hcmd
    simp only [SameOption, SameTree, mapPos] at hargs hdir ⊢
    rw [hcmd, hargs, hdir, hsign.pos]

omit S T in
/-- A part that is there on both sides. -/
theorem SameTree.some {t t' : Node} (h : s.SameTree t t') : s.SameOption (some t) (some t') := by
  simp only [SameTree, SameOption, mapPosOption] at h ⊢
  rw [h]

variable {sign sign' : Token} {cmd cmd' args args' dir dir' : Option Node}

/-- The arguments of an execution. What was read of them earlier is the same on both sides and stays so. -/
theorem transfers_execArguments (hsign : s.Alike sign sign') (hcmd : s.SameOption cmd cmd')
    (hargs : s.SameOption args args') (hdir : s.SameOption dir dir') :
    s.Transfers s.SameTree (n + 1) (execArguments · sign cmd args dir)
      (execArguments · sign' cmd' args' dir') := by
  apply Transfers.succ
  intro c t d c' hf h room k hk
  have hcs := (hf.ended S).skipComments
  rcases (gives_execArguments _ _ _ _ _ _ _ _).1 h with ⟨hkind, h⟩ |
    ⟨hkind, heq, value, e, hv, h⟩
  · have l₁ := (hcs.reads_skip (p := fun _ => True) hkind Kind.noConfusion trivial).shorter
    obtain ⟨rfl, t', h', ht⟩ :=
      transfers_execNode hsign hcmd hargs hdir h c'.skipComments.skip
    have hfc := hf.skipComments S (by omega)
    obtain ⟨halike, hd⟩ := hfc.step S (by omega)
    exact ⟨t', _, (gives_execArguments _ _ _ _ _ _ _ _).2
      (.inl ⟨halike.kind ▸ hkind, h'⟩), ht, hd⟩
  · have he := (forward n).expression hcs.skip.skip hv
    have l₁ := c.skipComments.length_skip_le
    have l₂ := c.skipComments.skip.length_skip_le
    have l₃ := he.shorter
    have l₄ : d.rest.length < e.rest.length := by
      rcases h with ⟨-, h⟩ | ⟨-, h⟩ | ⟨-, h⟩
      all_goals exact ((forward n).moreExecArguments he.ended h).shorter
    have hfc := hf.skipComments S (by omega)
    obtain ⟨halike, hfs⟩ := hfc.step S (by omega)
    obtain ⟨halike₁, hfs₁⟩ := hfs.step S (by omega)
    obtain ⟨value', e', hv', hvalue, hfe⟩ := T.expression hfs₁ hv (by omega) k hk
    -- Whichever argument it is, the other side is put together in the same way.
    have hargument : ∀ {t' : Node} {d' : Cursor},
        ((c'.skipComments.peekAt 0).literal = "cmd" ∧
            (moreExecArguments k sign' (some value') args' dir').Gives e' t' d') ∨
          ((c'.skipComments.peekAt 0).literal = "args" ∧
            (moreExecArguments k sign' cmd' (some value') dir').Gives e' t' d') ∨
          ((c'.skipComments.peekAt 0).literal = "dir" ∧
            (moreExecArguments k sign' cmd' args' (some value')).Gives e' t' d') →
        (execArguments (k + 1) sign' cmd' args' dir').Gives c' t' d' := fun h =>
      (gives_execArguments _ _ _ _ _ _ _ _).2
        (.inr ⟨halike.kind ▸ hkind, halike₁.kind ▸ heq, value', e', hv', h⟩)
    rcases h with ⟨hn, h⟩ | ⟨hn, h⟩ | ⟨hn, h⟩
    · obtain ⟨t', d', h', ht, hd⟩ :=
        T.moreExecArguments hsign hvalue.some hargs hdir hfe h room k hk
      exact ⟨t', d', hargument (.inl ⟨halike.literal ▸ hn, h'⟩), ht, hd⟩
    · obtain ⟨t', d', h', ht, hd⟩ :=
        T.moreExecArguments hsign hcmd hvalue.some hdir hfe h room k hk
      exact ⟨t', d', hargument (.inr (.inl ⟨halike.literal ▸ hn, h'⟩)), ht, hd⟩
    · obtain ⟨t', d', h', ht, hd⟩ :=
        T.moreExecArguments hsign hcmd hargs hvalue.some hfe h room k hk
      exact ⟨t', d', hargument (.inr (.inr ⟨halike.literal ▸ hn, h'⟩)), ht, hd⟩

/-- What follows an argument is in front of the seam, because the bracket is. -/
theorem transfers_moreExecArguments (hsign : s.Alike sign sign') (hcmd : s.SameOption cmd cmd')
    (hargs : s.SameOption args args') (hdir : s.SameOption dir dir') :
    s.Transfers s.SameTree (n + 1) (moreExecArguments · sign cmd args dir)
      (moreExecArguments · sign' cmd' args' dir') := by
  apply Transfers.succ
  intro c t d c' hf h room k hk
  have hcs := (hf.ended S).skipComments
  have l₁ := c.skipComments.length_skip_le
  rcases (gives_moreExecArguments _ _ _ _ _ _ _ _).1 h with ⟨hkind, h⟩ | ⟨hkind, h⟩
  · have l₂ := ((forward n).execArguments hcs.skip h).shorter
    have hfc := hf.skipComments S (by omega)
    obtain ⟨halike, hfs⟩ := hfc.step S (by omega)
    obtain ⟨t', d', h', ht, hd⟩ := T.execArguments hsign hcmd hargs hdir hfs h room k hk
    exact ⟨t', d', (gives_moreExecArguments _ _ _ _ _ _ _ _).2
      (.inl ⟨halike.kind ▸ hkind, h'⟩), ht, hd⟩
  · have l₂ := (hcs.reads_skip (p := fun _ => True) hkind Kind.noConfusion trivial).shorter
    obtain ⟨rfl, t', h', ht⟩ :=
      transfers_execNode hsign hcmd hargs hdir h c'.skipComments.skip
    have hfc := hf.skipComments S (by omega)
    obtain ⟨halike, hd⟩ := hfc.step S (by omega)
    exact ⟨t', _, (gives_moreExecArguments _ _ _ _ _ _ _ _).2
      (.inr ⟨halike.kind ▸ hkind, h'⟩), ht, hd⟩

/-- The items of a pipeline, up to the brace, which is in front of the seam. -/
theorem transfers_pipelineItems :
    s.Transfers s.SameTrees (n + 1) pipelineItems pipelineItems := by
  apply Transfers.succ
  intro c ns d c' hf h room k hk
  have hcs := (hf.ended S).skipSeparators
  cases (gives_pipelineItems _ _ _ _).1 h with
  | close hkind =>
    have l₁ := (hcs.reads_skip (p := fun _ => True) hkind Kind.noConfusion trivial).shorter
    have hfc := hf.skipSeparators S (by omega)
    obtain ⟨halike, hd⟩ := hfc.step S (by omega)
    exact ⟨_, _, (gives_pipelineItems _ _ _ _).2 (.close (halike.kind ▸ hkind)), rfl, hd⟩
  | comment hkind ho =>
    have l₁ := c.skipSeparators.length_skip_le
    have l₂ := ((forward n).pipelineItems hcs.skip ho).shorter
    have hfc := hf.skipSeparators S (by omega)
    obtain ⟨halike, hfs⟩ := hfc.step S (by omega)
    obtain ⟨others', d', ho', hothers, hd⟩ := T.pipelineItems hfs ho room k hk
    refine ⟨_, d', (gives_pipelineItems _ _ _ _).2 (.comment (halike.kind ▸ hkind) ho'), ?_, hd⟩
    simp only [SameTrees, mapPosAll, mapPos] at hothers ⊢
    rw [hothers, halike.literal]
  | arrow hname ha hr ho =>
    -- The rules read forward, so each of the items is in front of the seam if the last of them is.
    have he := (forward n).arrow hcs hr
    have l₁ := he.shorter
    have l₂ := ((forward n).pipelineItems he.ended ho).shorter
    have hfc := hf.skipSeparators S (by omega)
    have ha' := hfc.arrowAhead? S (by omega) (clear_of_length (by omega)) ▸ ha
    obtain ⟨halike, -⟩ := hfc.step S (by omega)
    obtain ⟨first', e', hr', hfirst, hfe⟩ := T.arrow hfc hr (by omega) k hk
    obtain ⟨others', d', ho', hothers, hd⟩ := T.pipelineItems hfe ho room k hk
    refine ⟨_, d', (gives_pipelineItems _ _ _ _).2
      (.arrow (halike.isName ▸ hname) ha' hr' ho'), ?_, hd⟩
    simp only [SameTree, SameTrees, mapPosAll] at hfirst hothers ⊢
    rw [hfirst, hothers]
  | step hname ha hn hb ho =>
    have he := (forward n).blockOrAssignment hcs hb
    have hclose := pipelineItems_reads_rbrace n he.ended ho
    have l₁ := he.shorter
    have l₂ := hclose.shorter
    have hfc := hf.skipSeparators S (by omega)
    have hshut := hfc.shut he.suffix hclose room
    have ha' := hfc.arrowAhead? S (by omega) (clear_of_length (by omega)) ▸ ha
    obtain ⟨halike, hfs⟩ := hfc.step S (by omega)
    have hn' : (c'.skipSeparators.peekAt 1).kind = .assign ∨
        (c'.skipSeparators.peekAt 1).kind = .colon := by
      rw [peekAt_succ] at hn ⊢
      exact hn.imp (hfs.kind_iff S rfl).1 (hfs.kind_iff S rfl).1
    obtain ⟨first', e', hb', hfirst, hfe⟩ := T.blockOrAssignment hfc hb (by omega) hshut k hk
    obtain ⟨others', d', ho', hothers, hd⟩ := T.pipelineItems hfe ho room k hk
    refine ⟨_, d', (gives_pipelineItems _ _ _ _).2
      (.step (halike.isName ▸ hname) ha' hn' hb' ho'), ?_, hd⟩
    simp only [SameTree, SameTrees, mapPosAll] at hfirst hothers ⊢
    rw [hfirst, hothers]

end Directives

/-- **Readings carry over,** whatever their budget. What stands in front of the seam is read in the same way
whatever stands behind it, by induction on the budget and for all rules at once. -/
theorem transferred (S : s.Parted) (n : Nat) : s.Transferred n := by
  induction n with
  | zero => exact transferred_zero
  | succ n T => exact {
      expression := transfers_expression S T
      binary := transfers_binary S T
      climb := transfers_climb S T
      unary := transfers_unary S T
      members := transfers_members S T
      primary := transfers_primary S T
      items := transfers_items S T
      body := transfers_body S T
      bodyItems := transfers_bodyItems S T
      statement := transfers_statement S T
      arrow := transfers_arrow S T
      blockOrAssignment := transfers_blockOrAssignment S T
      moreValues := transfers_moreValues S T
      control := transfers_control S T
      elseChain := transfers_elseChain S T
      directive := transfers_directive S T
      execArguments := transfers_execArguments S T
      moreExecArguments := transfers_moreExecArguments S T
      pipelineItems := transfers_pipelineItems S T }

end Seam

end BlockConfig
