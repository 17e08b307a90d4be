import BlockConfig.Proofs.Grammar.Transfer
import BlockConfig.Proofs.Grammar.Uncommented

/-!
A token list with one comment left out.

A comment is a token like any other, so a rule that looks ahead is stopped by it. What a document
becomes when one of its comments is left out is told by reading both token lists side by side. In
front of the comment and behind it they agree up to the places of their tokens (`Omission.Facing`);
where one list has the comment and the other has not is the gap.

At the gap the two readings see different tokens, and what was complete in front of the comment may
go on behind it. `Commented.GoesOn` lists the ways in which a statement can do so. A document in
which no statement does is `Quiet`.
-/

set_option autoImplicit false

namespace BlockConfig

open Cursor Rule Node

/-- Tokens that differ at most in their places. -/
structure Token.Twin (t t' : Token) : Prop where
  kind : t.kind = t'.kind
  literal : t.literal = t'.literal
  delimiter : t.delimiter = t'.delimiter
  quote : t.quote = t'.quote

/-- Twins are names together. -/
theorem Token.Twin.isName {t t' : Token} (h : t.Twin t') : t.isName = t'.isName := by
  unfold Token.isName
  rw [h.kind]

/-- The kinds of token that can stand behind something complete. -/
def Kind.resumes : Kind → Bool
  | .comma | .semicolon | .rparen | .rbracket | .rbrace | .eof | .comment | .ident | .str | .atSign
  | .ifWord | .elseIfWord | .elseWord => true
  | _ => false

/-- What can stand behind something complete is no operator sign; an operator that is a word may be. -/
theorem Kind.ofKind?_of_resumes {k : Kind} (h : k.resumes = true) : BinaryOp.ofKind? k = none := by
  cases k <;> first | rfl | cases h

namespace Node

/-- Whether a statement ends with a value. -/
def endsInValue : Node → Bool
  | assign _ _ style => style ≠ .flag
  | assignEach _ | destructure .. | inclusion .. => true
  | _ => false

end Node

/-- The places in a token list at which a statement is looked for: at the beginning, behind an
opening brace, and behind another statement, separators passed over. -/
inductive Begins (ts : List Token) : Cursor → Prop
  | document : Begins ts (ofTokens ts).skipSeparators
  | brace {t : Token} {rest : List Token} (hs : t :: rest <:+ ts) (hk : t.kind = .lbrace) :
      Begins ts (Cursor.mk t.pos.line rest).skipSeparators
  | next {c d : Cursor} {n : Node} {k : Nat} (hc : Begins ts c)
      (h : (Rule.statement k).Gives c n d) : Begins ts d.skipSeparators

/-- A comment in a token list and the tokens around it. -/
structure Commented where
  front : List Token
  comment : Token
  left : List Token
  isComment : comment.kind = .comment

namespace Commented

variable (o : Commented)

/-- The tokens with the comment. -/
def tokens : List Token :=
  o.front ++ o.comment :: o.left

/-- The tokens from the comment on. -/
def gap : List Token :=
  o.comment :: o.left

/-- Nothing is left to be read in front of the comment. -/
def AtGap (c : Cursor) : Prop :=
  c.rest = o.gap

/-- The ways in which a statement, read from `c` to `d`, goes on behind the comment once that is
left out. -/
inductive GoesOn (c : Cursor) : Node → Cursor → Prop
  /-- A value takes in the operator behind the comment. -/
  | operator {n : Node} {d : Cursor} (hn : n.endsInValue = true) (hd : o.AtGap d)
      (ho : (Cursor.mk d.line o.left).operator?.isSome = true) : GoesOn c n d
  /-- The value for several targets gets a second one beside it. -/
  | value {targets : List Target} {source : Node} {d : Cursor} (hd : o.AtGap d)
      (hk : ((Cursor.mk d.line o.left).peekAt 0).kind = .comma) :
      GoesOn c (.destructure targets source) d
  /-- A flag becomes the kind of a block, with a label behind it. -/
  | label {target : Target} {value : Node} {d : Cursor} (hd : o.AtGap d)
      (hn : ((Cursor.mk d.line o.left).peekAt 0).isName = true)
      (hl : ((Cursor.mk d.line o.left).peekAt 0).pos.line = d.line)
      (hb : ((Cursor.mk d.line o.left).peekAt 1).kind = .lbrace) :
      GoesOn c (.assign target value .flag) d
  /-- A flag becomes the relation of an arrow. -/
  | relation {target : Target} {value : Node} {d : Cursor} (hd : o.AtGap d)
      (hr : (Relation.ofName? target.name).isSome = true) (hopens : Seam.OpensArrow o.left) :
      GoesOn c (.assign target value .flag) d
  /-- A flag becomes the first of several targets. -/
  | targets {target : Target} {value : Node} {d : Cursor} {us : List Token}
      (hc : c.rest = us ++ o.gap) (ht : (targetList? (us ++ o.left)).isSome = true) :
      GoesOn c (.assign target value .flag) d

/-- No statement goes on behind the comment. -/
def Quiet : Prop :=
  ∀ {c d : Cursor} {n : Node} {k : Nat}, Begins o.tokens c → (Rule.statement k).Gives c n d →
    ¬o.GoesOn c n d

end Commented

/-- A comment that is left out, and the tokens that stand behind it then. -/
structure Omission extends Commented where
  right : List Token

namespace Omission

open Commented

variable (o : Omission)

/-! ## 1. Facing lists -/

/-- The tokens ahead, the omitted comment aside. -/
def ahead (us : List Token) : List Token :=
  if us = o.gap then o.left else us

theorem ahead_of_ne {us : List Token} (h : us ≠ o.gap) : o.ahead us = us :=
  if_neg h

theorem ahead_gap : o.ahead o.gap = o.left :=
  if_pos rfl

/-- What is ahead begins on the line that was reached, on both sides or on neither. -/
def Level (line : Nat) (us : List Token) (line' : Nat) (us' : List Token) : Prop :=
  ∀ t ∈ (o.ahead us).head?, ∀ t' ∈ us'.head?, t.kind ≠ .eof →
    (t.pos.line = line ↔ t'.pos.line = line')

/-- Lists that agree but for the omitted comment. -/
inductive Facing : List Token → List Token → Prop
  | eof {t t' : Token} (twin : t.Twin t') (hk : t.kind = .eof) : Facing [t] [t']
  | omitted (rest : Facing o.left o.right) : Facing o.gap o.right
  | cons {t t' : Token} {us us' : List Token} (off : us.length ≠ o.left.length) (twin : t.Twin t')
      (level : o.Level t.pos.line us t'.pos.line us') (rest : Facing us us') :
      Facing (t :: us) (t' :: us')

variable {o} {us us' : List Token}

theorem Facing.ne_nil (h : o.Facing us us') : us ≠ [] ∧ us' ≠ [] := by
  induction h with
  | eof | cons => exact ⟨List.cons_ne_nil _ _, List.cons_ne_nil _ _⟩
  | omitted _ ih => exact ⟨List.cons_ne_nil _ _, ih.2⟩

/-- The list with the comment ends with the end of input. -/
theorem Facing.ended (h : o.Facing us us') (line : Nat) : Cursor.Ended ⟨line, us⟩ := by
  refine ⟨?_, fun _ _ => trivial⟩
  induction h with
  | @eof t _ _ hk => exact ⟨t, rfl, hk⟩
  | omitted rest ih =>
    obtain ⟨t, ht, hk⟩ := ih
    obtain ⟨u, us, hus⟩ := List.exists_cons_of_ne_nil rest.ne_nil.1
    refine ⟨t, ?_, hk⟩
    show t ∈ List.getLast? (o.comment :: o.left)
    rw [hus, List.getLast?_cons_cons, ← hus]
    exact ht
  | @cons _ _ us _ _ _ _ rest ih =>
    obtain ⟨t, ht, hk⟩ := ih
    obtain ⟨u, us, rfl⟩ := List.exists_cons_of_ne_nil rest.ne_nil.1
    exact ⟨t, List.getLast?_cons_cons.trans ht, hk⟩

/-- At the gap the other list is behind it. -/
theorem Facing.of_gap (h : o.Facing us us') (hg : us = o.gap) :
    us' = o.right ∧ o.Facing o.left o.right := by
  cases h with
  | eof _ hk =>
    have ht := (List.cons.inj hg).1
    rw [ht, o.isComment] at hk
    exact Kind.noConfusion hk
  | omitted rest => exact ⟨rfl, rest⟩
  | cons off => exact absurd (congrArg List.length (List.cons.inj hg).2) off

/-- A token that is not the omitted comment has a twin. -/
theorem Facing.uncons {t : Token} (h : o.Facing (t :: us) us') (hg : t :: us ≠ o.gap) :
    ∃ t' vs', us' = t' :: vs' ∧ t.Twin t' ∧ ((us = [] ∧ vs' = [] ∧ t.kind = .eof) ∨
      (o.Level t.pos.line us t'.pos.line vs' ∧ o.Facing us vs')) := by
  generalize hts : t :: us = ts at h hg
  cases h with
  | eof twin hk =>
    obtain ⟨rfl, rfl⟩ := List.cons.inj hts
    exact ⟨_, [], rfl, twin, .inl ⟨rfl, rfl, hk⟩⟩
  | omitted => exact absurd rfl hg
  | cons _ twin level rest =>
    obtain ⟨rfl, rfl⟩ := List.cons.inj hts
    exact ⟨_, _, rfl, twin, .inr ⟨level, rest⟩⟩

/-- The tokens ahead are those of the other list, with the comment left out if it is ahead. -/
theorem Facing.twins (h : o.Facing us us') :
    (∃ vs, us = vs ++ o.gap ∧ List.Forall₂ Token.Twin (vs ++ o.left) us') ∨
      List.Forall₂ Token.Twin us us' := by
  induction h with
  | eof twin => exact .inr (.cons twin .nil)
  | omitted rest ih =>
    refine .inl ⟨[], rfl, ?_⟩
    rcases ih with ⟨vs, hvs, -⟩ | h
    · -- What is behind the comment is too short to have it ahead.
      have hlength := congrArg List.length hvs
      rw [List.length_append, gap, List.length_cons] at hlength
      omega
    · exact h
  | cons off twin level rest ih =>
    rcases ih with ⟨vs, rfl, h⟩ | h
    · exact .inl ⟨_ :: vs, rfl, .cons twin h⟩
    · exact .inr (.cons twin h)

/-- An `ELSE` is ahead on both sides or on neither. -/
theorem Facing.elseAhead (h : o.Facing us us') (line line' : Nat) :
    Rule.elseAhead ⟨line, us⟩ = Rule.elseAhead ⟨line', us'⟩ := by
  induction h generalizing line line' with
  | eof twin => rw [Seam.elseAhead_cons line 0, Seam.elseAhead_cons line' 0, twin.kind]
  | omitted _ ih =>
    rw [gap, Seam.elseAhead_cons line 0, if_pos o.isComment]
    exact ih 0 line'
  | cons _ twin _ _ ih =>
    rw [Seam.elseAhead_cons line 0, Seam.elseAhead_cons line' 0, twin.kind, ih 0 0]

/-! ## 2. Cursors that meet -/

variable (o) in
/-- Cursors with the same ahead of them, the omitted comment aside. -/
structure Meets (c c' : Cursor) : Prop where
  facing : o.Facing c.rest c'.rest
  inside : c.rest <:+ o.tokens

variable (o) in
/-- Such cursors that have also read the same, so that words and labels see one line. -/
structure Faces (c c' : Cursor) : Prop extends Meets o c c' where
  level : o.Level c.line c.rest c'.line c'.rest

variable {c c' : Cursor}

theorem Meets.ended (h : o.Meets c c') : c.Ended :=
  h.facing.ended c.line

/-- At a token that is no comment the gap has not been reached. -/
theorem not_atGap_of_kind {k : Kind} (hk : (c.peekAt 0).kind = k) (hne : k ≠ .comment) :
    ¬o.AtGap c := by
  intro hg
  obtain ⟨line, us⟩ := c
  obtain rfl : us = o.gap := hg
  exact hne (hk.symm.trans o.isComment)

/-- In particular not at a name. -/
theorem not_atGap_of_isName (hn : (c.peekAt 0).isName = true) : ¬o.AtGap c := by
  rcases Token.isName_iff.1 hn with hn | hn
  · exact not_atGap_of_kind hn Kind.noConfusion
  · exact not_atGap_of_kind hn Kind.noConfusion

/-- Off the gap both cursors read the same token and have the same ahead of them behind it. -/
theorem Meets.step (h : o.Meets c c') (hg : ¬o.AtGap c) :
    (c.peekAt 0).Twin (c'.peekAt 0) ∧ o.Faces c.skip c'.skip := by
  obtain ⟨line, us⟩ := c
  obtain ⟨line', us'⟩ := c'
  obtain ⟨facing, inside⟩ := h
  obtain ⟨t, us, rfl⟩ := List.exists_cons_of_ne_nil facing.ne_nil.1
  obtain ⟨t', vs', rfl, twin, ⟨rfl, rfl, hk⟩ | ⟨level, rest⟩⟩ := facing.uncons hg
  · refine ⟨twin, ⟨facing, inside⟩, ?_⟩
    -- The end of input is on no line that matters.
    intro u hu _ _ hne
    have hu : u ∈ (o.ahead [t]).head? := hu
    rw [o.ahead_of_ne hg] at hu
    obtain rfl := Option.some.inj hu
    exact absurd hk hne
  · obtain ⟨u, vs, rfl⟩ := List.exists_cons_of_ne_nil rest.ne_nil.1
    obtain ⟨u', vs', rfl⟩ := List.exists_cons_of_ne_nil rest.ne_nil.2
    exact ⟨twin, ⟨rest, (List.suffix_cons _ _).trans inside⟩, level⟩

/-- A token of a kind that is expected has a twin on the other side, and behind the two the cursors face
each other. -/
theorem Meets.step_of_kind (h : o.Meets c c') {k : Kind} (hk : (c.peekAt 0).kind = k)
    (hne : k ≠ .comment) : (c.peekAt 0).Twin (c'.peekAt 0) ∧ o.Faces c.skip c'.skip :=
  h.step (not_atGap_of_kind hk hne)

/-- The same of a name. -/
theorem Meets.step_of_isName (h : o.Meets c c') (hn : (c.peekAt 0).isName = true) :
    (c.peekAt 0).Twin (c'.peekAt 0) ∧ o.Faces c.skip c'.skip :=
  h.step (not_atGap_of_isName hn)

/-- Off the gap the next two tokens stand on one line on both sides or on neither. -/
theorem Meets.line_iff (h : o.Meets c c') (hg : ¬o.AtGap c) (hg₁ : ¬o.AtGap c.skip)
    (he : (c.skip.peekAt 0).kind ≠ .eof) :
    (c.skip.peekAt 0).pos.line = (c.peekAt 0).pos.line ↔
      (c'.skip.peekAt 0).pos.line = (c'.peekAt 0).pos.line := by
  obtain ⟨line, us⟩ := c
  obtain ⟨line', us'⟩ := c'
  obtain ⟨facing, -⟩ := h
  obtain ⟨t, us, rfl⟩ := List.exists_cons_of_ne_nil facing.ne_nil.1
  obtain ⟨t', vs', rfl, -, ⟨rfl, rfl, hk⟩ | ⟨level, rest⟩⟩ := facing.uncons hg
  · exact absurd hk he
  · obtain ⟨u, vs, rfl⟩ := List.exists_cons_of_ne_nil rest.ne_nil.1
    obtain ⟨u', vs', rfl⟩ := List.exists_cons_of_ne_nil rest.ne_nil.2
    have hne : u :: vs ≠ o.gap := hg₁
    exact level u (by rw [o.ahead_of_ne hne]; rfl) u' rfl he

/-- Off the gap the same operator is seen. -/
theorem Faces.operator (h : o.Faces c c') (hg : ¬o.AtGap c) : c.operator? = c'.operator? := by
  obtain ⟨line, us⟩ := c
  obtain ⟨line', us'⟩ := c'
  obtain ⟨⟨facing, -⟩, level⟩ := h
  obtain ⟨t, us, rfl⟩ := List.exists_cons_of_ne_nil facing.ne_nil.1
  obtain ⟨t', vs', rfl, twin, -⟩ := facing.uncons hg
  have hne : t :: us ≠ o.gap := hg
  have hlevel := level t (by dsimp only; rw [o.ahead_of_ne hne]; rfl) t' rfl
  show (if t.kind = .ident then
      if t.pos.line = line then BinaryOp.ofWord? t.literal else none
    else BinaryOp.ofKind? t.kind) = if t'.kind = .ident then
      if t'.pos.line = line' then BinaryOp.ofWord? t'.literal else none
    else BinaryOp.ofKind? t'.kind
  rw [← twin.kind, ← twin.literal]
  split
  next hi => simp only [hlevel (by rw [hi]; exact Kind.noConfusion)]
  next => rfl

/-! ## 3. At the gap -/

variable (o) in
/-- What stands behind the comment can stand behind something complete. -/
def Calm : Prop :=
  ∀ t ∈ o.left.head?, t.kind.resumes = true

variable (o) in
/-- What was read up to the comment on a line is complete. -/
structure Settled (line : Nat) : Prop where
  calm : o.Calm
  operator : (Cursor.mk line o.left).operator? = none

/-- No operator is seen at the comment, whatever stands behind it. -/
theorem operator?_of_atGap (hg : o.AtGap c) : c.operator? = none := by
  obtain ⟨line, us⟩ := c
  obtain rfl : us = o.gap := hg
  unfold Cursor.operator?
  have hk : ((Cursor.mk line o.gap).peekAt 0).kind = .comment := o.isComment
  rw [hk]
  rfl

/-- The tokens behind the gap, one by one. -/
theorem Meets.right_of_atGap (h : o.Meets c c') (hg : o.AtGap c) (line : Nat) :
    c'.rest = o.right ∧ o.Meets ⟨line, o.left⟩ c' ∧ ¬o.AtGap ⟨line, o.left⟩ := by
  obtain ⟨hright, rest⟩ := h.facing.of_gap hg
  refine ⟨hright, ⟨hright ▸ rest, ?_⟩, ?_⟩
  · refine List.IsSuffix.trans ?_ h.inside
    rw [hg]
    exact List.suffix_cons _ _
  · intro he
    have hlength := congrArg List.length he
    rw [gap, List.length_cons] at hlength
    simp at hlength

/-- On the other side the token behind the comment is seen, and if that is calm then it can stand behind
something complete. -/
theorem Meets.resumes_of_atGap (h : o.Meets c c') (hg : o.AtGap c) (calm : o.Calm) :
    (c'.peekAt 0).kind.resumes = true := by
  obtain ⟨-, hleft, hoff⟩ := h.right_of_atGap hg 0
  rw [← (hleft.step hoff).1.kind]
  obtain ⟨t, ts, hts⟩ := List.exists_cons_of_ne_nil hleft.facing.ne_nil.1
  have ht : o.left = t :: ts := hts
  have hfirst : (Cursor.mk 0 o.left).peekAt 0 = t := by rw [ht]; rfl
  rw [hfirst]
  exact calm t (by rw [ht]; rfl)

/-- A token that can stand behind nothing complete is ahead on both sides or on neither. -/
theorem Meets.kind_iff (h : o.Meets c c') (calm : o.AtGap c → o.Calm) {k : Kind}
    (hk : k.resumes = false) : (c.peekAt 0).kind = k ↔ (c'.peekAt 0).kind = k := by
  by_cases hg : o.AtGap c
  · have hright := h.resumes_of_atGap hg (calm hg)
    constructor
    · intro hc
      refine absurd hg (not_atGap_of_kind hc ?_)
      rintro rfl
      cases hk
    · rintro rfl
      rw [hright] at hk
      cases hk
  · rw [(h.step hg).1.kind]

/-- What is settled sees no operator. -/
theorem Faces.operator_of_atGap (h : o.Faces c c') (hg : o.AtGap c) (hs : o.Settled c.line) :
    c'.operator? = none := by
  obtain ⟨-, hleft, hoff⟩ := h.right_of_atGap hg c.line
  have hlevel : o.Level c.line o.left c'.line c'.rest := by
    have level := h.level
    have hne : o.left ≠ o.gap := hoff
    have hgap : c.rest = o.gap := hg
    rw [Level, hgap, ahead_gap] at level
    rw [Level, o.ahead_of_ne hne]
    exact level
  have hfaces : o.Faces ⟨c.line, o.left⟩ c' := ⟨hleft, hlevel⟩
  exact (hfaces.operator hoff).symm.trans hs.operator

/-! ## 4. Passing over comments and separators -/

/-- Passing comments leads behind the omitted one as behind any other. It may be the first of several, or be
among them, and on the other side one fewer is passed. -/
theorem Facing.skipComments (h : o.Facing us us') (line line' : Nat) :
    o.Facing (Cursor.mk line us).skipComments.rest (Cursor.mk line' us').skipComments.rest ∧
      (Cursor.mk line us).skipComments.rest ≠ o.gap := by
  unfold Cursor.skipComments
  dsimp only
  induction h generalizing line line' with
  | @eof t t' twin hk =>
    refine ⟨.eof twin hk, ?_⟩
    intro hg
    have ht : t = o.comment := (List.cons.inj hg).1
    rw [ht, o.isComment] at hk
    exact Kind.noConfusion hk
  | omitted rest ih =>
    obtain ⟨u, vs, hleft⟩ := List.exists_cons_of_ne_nil rest.ne_nil.1
    have hskip : Cursor.skipKinds (· = .comment) line o.gap =
        Cursor.skipKinds (· = .comment) o.comment.pos.line o.left := by
      rw [gap, hleft, Cursor.skipKinds, if_pos (by simp [o.isComment])]
    rw [hskip]
    exact ih _ _
  | @cons t t' us us' off twin level rest ih =>
    obtain ⟨u, vs, rfl⟩ := List.exists_cons_of_ne_nil rest.ne_nil.1
    obtain ⟨u', vs', rfl⟩ := List.exists_cons_of_ne_nil rest.ne_nil.2
    simp only [Cursor.skipKinds, ← twin.kind]
    split
    next => exact ih _ _
    next =>
      exact ⟨.cons off twin level rest, fun hg =>
        off (congrArg List.length (List.cons.inj hg).2)⟩

/-- Where comments are passed, the omitted one cannot be what comes next any more. -/
theorem Meets.skipComments (h : o.Meets c c') :
    o.Meets c.skipComments c'.skipComments ∧ ¬o.AtGap c.skipComments := by
  obtain ⟨hfacing, hoff⟩ := h.facing.skipComments c.line c'.line
  exact ⟨⟨hfacing, c.suffix_skipComments.trans h.inside⟩, hoff⟩

/-- Separators are passed over on both sides, unless the gap is reached: there the other side goes
on behind it. -/
theorem Facing.skipSeparators (h : o.Facing us us') (line line' : Nat) :
    (o.Facing (Cursor.mk line us).skipSeparators.rest (Cursor.mk line' us').skipSeparators.rest ∧
        (Cursor.mk line us).skipSeparators.rest ≠ o.gap) ∨
      ((Cursor.mk line us).skipSeparators.rest = o.gap ∧ o.Facing o.left o.right ∧
        ∃ l, (Cursor.mk line' us').skipSeparators = (Cursor.mk l o.right).skipSeparators) := by
  unfold Cursor.skipSeparators
  dsimp only
  induction h generalizing line line' with
  | @eof t t' twin hk =>
    refine .inl ⟨.eof twin hk, ?_⟩
    intro hg
    have ht : t = o.comment := (List.cons.inj hg).1
    rw [ht, o.isComment] at hk
    exact Kind.noConfusion hk
  | omitted rest =>
    obtain ⟨u, vs, hleft⟩ := List.exists_cons_of_ne_nil rest.ne_nil.1
    refine .inr ⟨?_, rest, line', rfl⟩
    rw [gap, hleft, Cursor.skipKinds, if_neg (by simp [o.isComment])]
  | @cons t t' us us' off twin level rest ih =>
    obtain ⟨u, vs, rfl⟩ := List.exists_cons_of_ne_nil rest.ne_nil.1
    obtain ⟨u', vs', rfl⟩ := List.exists_cons_of_ne_nil rest.ne_nil.2
    simp only [Cursor.skipKinds, ← twin.kind]
    split
    next => exact ih _ _
    next =>
      exact .inl ⟨.cons off twin level rest, fun hg =>
        off (congrArg List.length (List.cons.inj hg).2)⟩

/-- Passing separators stops at the comment or beyond it. If it stops there, the other side has gone on past
whatever separators stand behind. -/
theorem Meets.skipSeparators (h : o.Meets c c') :
    (o.Meets c.skipSeparators c'.skipSeparators ∧ ¬o.AtGap c.skipSeparators) ∨
      (o.AtGap c.skipSeparators ∧
        ∃ l, o.Meets ⟨o.comment.pos.line, o.left⟩ ⟨l, o.right⟩ ∧
          c'.skipSeparators = (Cursor.mk l o.right).skipSeparators) := by
  rcases h.facing.skipSeparators c.line c'.line with ⟨hfacing, hoff⟩ | ⟨hgap, rest, l, hl⟩
  · exact .inl ⟨⟨hfacing, c.suffix_skipSeparators.trans h.inside⟩, hoff⟩
  · refine .inr ⟨hgap, l, ⟨rest, ?_⟩, hl⟩
    have hsuffix := c.suffix_skipSeparators.trans h.inside
    rw [hgap] at hsuffix
    exact (List.suffix_cons _ _).trans hsuffix

/-- Behind the comment, which is passed over as a statement. -/
theorem skip_of_atGap (hg : o.AtGap c) (hne : o.left ≠ []) :
    c.skip = ⟨o.comment.pos.line, o.left⟩ :=
  Seam.skip_of_rest hg hne

/-! ## 5. Looking for targets -/

/-- Whether targets are ahead is seen from kinds and texts, so twins show the same. -/
theorem targetList?_of_twins {ts ts' : List Token} (h : List.Forall₂ Token.Twin ts ts')
    (ht : targetList? ts = none) : targetList? ts' = none := by
  fun_induction targetList? ts generalizing ts' with
  | case1 t u us hk hu ih =>
    cases h with
    | cons twin h =>
      cases h with
      | cons twin₁ h =>
        have hrest := ih h (Option.map_eq_none_iff.1 ht)
        simp [targetList?, hrest, ← twin₁.kind, hu]
  | case2 => cases ht
  | case3 t u us hk hc ha =>
    cases h with
    | cons twin h =>
      cases h with
      | cons twin₁ h => simp [targetList?, ← twin₁.kind, hc, ha]
  | case4 t u us hk =>
    cases h with
    | cons twin h =>
      cases h with
      | cons twin₁ h => simp [targetList?, ← twin.kind, hk]
  | case5 ts hts =>
    cases h with
    | nil => rfl
    | cons twin h =>
      cases h with
      | nil => rfl
      | cons => exact absurd rfl (hts _ _ _)

/-- Targets are found on both sides, and what is behind them faces each other. -/
theorem Facing.targetList? {rest : List Token} {targets : List Target} {sign : Token}
    (h : o.Facing us us') (hs : us <:+ o.tokens)
    (ht : Rule.targetList? us = some (targets, sign, rest)) (hend : rest ≠ []) :
    ∃ targets' sign' rest', Rule.targetList? us' = some (targets', sign', rest') ∧
      (targets.map fun t => (⟨t.name, .start⟩ : Target)) =
        targets'.map (fun t => ⟨t.name, .start⟩) ∧
      o.Faces ⟨sign.pos.line, rest⟩ ⟨sign'.pos.line, rest'⟩ := by
  -- Neither a name nor the comma behind it is the comment that is left out.
  have off : ∀ {t : Token} {ts : List Token} {k : Kind}, t.kind = k → k ≠ .comment →
      t :: ts ≠ o.gap := by
    intro t ts k hk hne hg
    rw [(List.cons.inj hg).1, o.isComment] at hk
    exact hne hk.symm
  fun_induction Rule.targetList? us generalizing us' targets with
  | case1 t u us hk hu ih =>
    obtain ⟨⟨targets₁, sign₁, rest₁⟩, ht₁, he⟩ := Option.map_eq_some_iff.1 ht
    simp only [Prod.mk.injEq] at he
    obtain ⟨rfl, rfl, rfl⟩ := he
    obtain ⟨t', vs', rfl, twin, ⟨hnil, -⟩ | ⟨-, h⟩⟩ := h.uncons (off hk Kind.noConfusion)
    · cases hnil
    obtain ⟨u', vs', rfl, twin₁, ⟨rfl, -⟩ | ⟨-, h⟩⟩ := h.uncons (off hu Kind.noConfusion)
    · cases ht₁
    have hsuffix := ((List.suffix_cons _ _).trans (List.suffix_cons _ _)).trans hs
    obtain ⟨targets', sign', rest', ht', htargets, hfaces⟩ := ih h hsuffix ht₁
    refine ⟨⟨t'.literal, t'.pos⟩ :: targets', sign', rest', ?_, ?_, hfaces⟩
    · simp [Rule.targetList?, ← twin.kind, ← twin₁.kind, hk, hu, ht']
    · rw [List.map_cons, List.map_cons, htargets, twin.literal]
  | case2 t u us hk _ hu =>
    simp only [Option.some.injEq, Prod.mk.injEq] at ht
    obtain ⟨rfl, rfl, rfl⟩ := ht
    obtain ⟨t', vs', rfl, twin, ⟨hnil, -⟩ | ⟨-, h⟩⟩ := h.uncons (off hk Kind.noConfusion)
    · cases hnil
    obtain ⟨u', vs', rfl, twin₁, ⟨rfl, -⟩ | ⟨level, h⟩⟩ := h.uncons (off hu Kind.noConfusion)
    · exact absurd rfl hend
    have hsuffix := ((List.suffix_cons _ _).trans (List.suffix_cons _ _)).trans hs
    refine ⟨[⟨t'.literal, t'.pos⟩], u', vs', ?_, ?_, ⟨h, hsuffix⟩, level⟩
    · simp [Rule.targetList?, ← twin.kind, ← twin₁.kind, hk, hu]
    · rw [List.map_singleton, List.map_singleton, twin.literal]
  | case3 | case4 | case5 => cases ht

end Omission

end BlockConfig
