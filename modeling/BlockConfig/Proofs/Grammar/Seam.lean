import BlockConfig.Proofs.Grammar.Consumption
import BlockConfig.Proofs.Grammar.Moved
import Mathlib.Data.List.Forall2

/-!
Two token lists that begin alike.

Two token lists may agree up to a place and go on differently: a document and the same document with
another one behind it, an expression and the same expression with a comment or a hole's brace behind
it. That place is a `Seam`. In front of it the tokens agree except for where they stand; what is
behind it is arbitrary, but both sides are such that nothing in front of the seam can go on there
(`Seam.Clean`), or only what goes on at a comma (`Seam.Parted`).

Readings of two such lists face each other (`Seam.Faces`) as long as they have not passed the seam:
they see the same tokens, the same operators and, as far as they are looked for, the same arrows and
targets.
-/

set_option autoImplicit false

namespace BlockConfig

open Cursor Rule

/-- The kinds with which something new can begin. -/
def Kind.begins : Kind → Bool
  | .eof | .comment | .semicolon | .atSign | .ifWord | .ident | .str => true
  | _ => false

/-- The kinds with which nothing goes on: those with which something new can begin, and those that
part or close what stands in a body. -/
def Kind.stops (k : Kind) : Bool :=
  k.begins || k = .comma || k = .rbrace

/-- A kind that begins a statement stops an expression in front of it. -/
theorem Kind.stops_of_begins {k : Kind} (h : k.begins = true) : k.stops = true := by
  rw [stops, h]
  rfl

/-- No operator stops anything. -/
theorem Kind.ofKind?_of_stops {k : Kind} (h : k.stops = true) : BinaryOp.ofKind? k = none := by
  cases k <;> first | rfl | cases h

/-- What is no operator symbol is an operator only as a word, and that only on its line. -/
theorem Cursor.operator?_eq_none {c : Cursor} (hk : BinaryOp.ofKind? (c.peekAt 0).kind = none)
    (hl : (c.peekAt 0).kind = .ident → (c.peekAt 0).pos.line ≠ c.line) : c.operator? = none := by
  unfold Cursor.operator?
  by_cases hi : (c.peekAt 0).kind = .ident
  · rw [if_pos hi, if_neg (hl hi)]
  · rw [if_neg hi, hk]

/-- A reading begins before the first line, where no word is an operator. -/
theorem Cursor.operator?_ofTokens {ts : List Token} (hlines : ∀ t ∈ ts, 1 ≤ t.pos.line) :
    (ofTokens ts).operator? = if ((ofTokens ts).peekAt 0).kind = .ident then none
      else BinaryOp.ofKind? ((ofTokens ts).peekAt 0).kind := by
  have hline : ((ofTokens ts).peekAt 0).pos.line ≠ (ofTokens ts).line := by
    cases ts with
    | nil => exact Nat.one_ne_zero
    | cons t ts => exact Nat.ne_of_gt (hlines t List.mem_cons_self)
  unfold Cursor.operator?
  simp only [if_neg hline]

/-- Where two token lists part: how far the tokens in front of the seam are moved on either side and
the tokens behind it. -/
structure Seam where
  here : Displacement
  there : Displacement
  left : List Token
  right : List Token

namespace Seam

variable {s : Seam}

/-! ## 1. Facing lists -/

/-- Tokens that differ at most in their places. -/
def Alike (s : Seam) (t t' : Token) : Prop :=
  t.moved s.here = t'.moved s.there

/-- A token in front of the seam that does not go on behind it: a name there stands on another line,
and no list of targets is cut in two. -/
structure Apart (s : Seam) (t' : Token) : Prop where
  line : ∀ u ∈ s.right.head?, u.isName = true → u.pos.line ≠ t'.pos.line
  comma : t'.kind = .comma → targetList? s.right = none

/-- Lists that agree up to the seam. -/
inductive Facing (s : Seam) : List Token → List Token → Prop
  | seam : Facing s s.left s.right
  | cons {t t' : Token} {us us' : List Token} (alike : s.Alike t t')
      (apart : us = s.left → s.Apart t') (rest : Facing s us us') : Facing s (t :: us) (t' :: us')

/-- Nothing in front of the seam can go on behind it, except at a comma. -/
structure Parted (s : Seam) : Prop where
  ended : Ended ⟨0, s.left⟩
  left : ∀ t ∈ s.left.head?, t.kind = .eof ∨ t.kind = .comment
  right : ∃ t ts, s.right = t :: ts ∧ t.kind.stops = true
  elseLeft : elseAhead ⟨0, s.left⟩ = false
  elseRight : elseAhead ⟨0, s.right⟩ = false

/-- Nothing in front of the seam can go on behind it. -/
structure Clean (s : Seam) : Prop where
  ended : Ended ⟨0, s.left⟩
  left : ∀ t ∈ s.left.head?, t.kind = .eof ∨ t.kind = .comment
  right : ∃ t ts, s.right = t :: ts ∧ t.kind.begins = true
  elseLeft : elseAhead ⟨0, s.left⟩ = false
  elseRight : elseAhead ⟨0, s.right⟩ = false

/-- A clean seam parts what stands on its sides. -/
theorem Clean.parted (S : s.Clean) : s.Parted where
  ended := S.ended
  left := S.left
  right := by
    obtain ⟨t, ts, hright, hk⟩ := S.right
    exact ⟨t, ts, hright, Kind.stops_of_begins hk⟩
  elseLeft := S.elseLeft
  elseRight := S.elseRight

section Alike

variable {t t' : Token} (h : s.Alike t t')
include h

theorem Alike.kind : t.kind = t'.kind :=
  (Token.mk.inj h).1

theorem Alike.literal : t.literal = t'.literal :=
  (Token.mk.inj h).2.1

theorem Alike.pos : t.pos.moved s.here = t'.pos.moved s.there :=
  (Token.mk.inj h).2.2.1

theorem Alike.delimiter : t.delimiter = t'.delimiter :=
  (Token.mk.inj h).2.2.2.1

theorem Alike.quote : t.quote = t'.quote :=
  (Token.mk.inj h).2.2.2.2

/-- Lines differ by a constant on each side. -/
theorem Alike.line : t.pos.line + s.here.lines = t'.pos.line + s.there.lines :=
  congrArg Position.line h.pos

/-- Tokens that are alike are names together. -/
theorem Alike.isName : t.isName = t'.isName := by
  unfold Token.isName
  rw [h.kind]

/-- Tokens on one line stay on one line. -/
theorem Alike.line_eq_iff {u u' : Token} (hu : s.Alike u u') :
    u.pos.line = t.pos.line ↔ u'.pos.line = t'.pos.line := by
  have ht := h.line
  have hu := hu.line
  omega

end Alike

/-- Alike tokens with the two sides of a seam behind them face each other. -/
theorem facing_of_forall₂ {front front' : List Token} (h : List.Forall₂ s.Alike front front')
    (hl : ∀ t ∈ front'.getLast?, s.Apart t) : s.Facing (front ++ s.left) (front' ++ s.right) := by
  induction h with
  | nil => exact .seam
  | @cons t t' us us' halike hus ih =>
    refine .cons halike (fun hleft => hl t' ?_) (ih fun u hu => hl u ?_)
    · obtain rfl : us = [] := List.append_left_eq_self.1 hleft
      cases hus
      rfl
    · cases us' with
      | nil => simp at hu
      | cons u' us' => exact List.getLast?_cons_cons.trans hu

/-- In front of the seam there are more tokens to come. -/
theorem Facing.suffix {us us' : List Token} (h : s.Facing us us') : s.left <:+ us := by
  induction h with
  | seam => exact List.suffix_rfl
  | cons _ _ _ ih => exact ih.trans (List.suffix_cons _ _)

theorem Facing.length_le {us us' : List Token} (h : s.Facing us us') :
    s.left.length ≤ us.length :=
  h.suffix.length_le

/-- With no more tokens than stand behind the seam, the seam is reached. -/
theorem Facing.eq_of_length {us us' : List Token} (h : s.Facing us us')
    (hl : us.length ≤ s.left.length) : us = s.left ∧ us' = s.right := by
  cases h with
  | seam => exact ⟨rfl, rfl⟩
  | cons _ _ rest => exact absurd (Nat.lt_of_lt_of_le hl rest.length_le) (Nat.lt_irrefl _)

/-- A list that is not empty begins at the seam or with a token in front of it. -/
theorem Facing.uncons {t : Token} {us us' : List Token} (h : s.Facing (t :: us) us') :
    (t :: us = s.left ∧ us' = s.right) ∨ ∃ t' vs', us' = t' :: vs' ∧ s.Alike t t' ∧
      (us = s.left → s.Apart t') ∧ s.Facing us vs' := by
  generalize hts : t :: us = ts at h
  cases h with
  | seam => exact .inl ⟨rfl, rfl⟩
  | cons alike apart rest =>
    obtain ⟨rfl, rfl⟩ := List.cons.inj hts
    exact .inr ⟨_, _, rfl, alike, apart, rest⟩

/-- With more tokens than that, the first ones are alike, and what is behind them faces again. If that is
the seam itself, the token stands apart from what follows. -/
theorem Facing.uncons_of_length {t : Token} {us us' : List Token} (h : s.Facing (t :: us) us')
    (room : s.left.length ≤ us.length) : ∃ t' vs', us' = t' :: vs' ∧ s.Alike t t' ∧
      (us = s.left → s.Apart t') ∧ s.Facing us vs' := by
  rcases h.uncons with ⟨hus, -⟩ | h
  · rw [← hus] at room
    exact absurd room (Nat.not_le.2 (Nat.lt_succ_self _))
  · exact h

/-- What ends behind the seam ends. -/
theorem Facing.ended (S : s.Parted) {us us' : List Token} (h : s.Facing us us') (line : Nat) :
    Ended ⟨line, us⟩ := by
  obtain ⟨⟨t, ht, hk⟩, -⟩ := S.ended
  refine ⟨⟨t, ?_, hk⟩, fun _ _ => trivial⟩
  induction h with
  | seam => exact ht
  | @cons _ _ us _ _ _ _ ih =>
    have hne : us ≠ [] := List.ne_nil_of_mem (List.mem_of_getLast? ih)
    obtain ⟨u, vs, rfl⟩ := List.exists_cons_of_ne_nil hne
    show t ∈ List.getLast? _
    rw [List.getLast?_cons_cons]
    exact ih

theorem Parted.left_ne_nil (S : s.Parted) : s.left ≠ [] :=
  Holds.ne_nil S.ended

/-- Behind the seam there are tokens on both sides, as both end in the end of input. -/
theorem Parted.right_ne_nil (S : s.Parted) : s.right ≠ [] := by
  obtain ⟨t, ts, h, -⟩ := S.right
  rw [h]
  exact List.cons_ne_nil t ts

/-- Neither list is used up before the seam. -/
theorem Facing.ne_nil (S : s.Parted) {us us' : List Token} (h : s.Facing us us') :
    us ≠ [] ∧ us' ≠ [] := by
  cases h with
  | seam => exact ⟨S.left_ne_nil, S.right_ne_nil⟩
  | cons => exact ⟨List.cons_ne_nil _ _, List.cons_ne_nil _ _⟩

/-! ## 2. Facing cursors -/

/-- Cursors that have not passed the seam and see the same operator. -/
structure Faces (s : Seam) (c c' : Cursor) : Prop where
  rests : s.Facing c.rest c'.rest
  operator : c.operator? = c'.operator?

variable {c c' : Cursor}

/-- A cursor in front of the seam is one of a text that ends. -/
theorem Faces.ended (S : s.Parted) (h : s.Faces c c') : c.Ended :=
  h.rests.ended S c.line

/-- The first tokens behind the seam. -/
theorem Parted.peekAt_left (S : s.Parted) (line : Nat) :
    ((Cursor.mk line s.left).peekAt 0).kind = .eof ∨
      ((Cursor.mk line s.left).peekAt 0).kind = .comment := by
  obtain ⟨t, ts, h⟩ := List.exists_cons_of_ne_nil S.left_ne_nil
  rw [h]
  exact S.left t (by rw [h]; rfl)

/-- No operator stands directly behind the seam. -/
theorem Parted.operator?_left (S : s.Parted) (line : Nat) :
    (Cursor.mk line s.left).operator? = none := by
  unfold Cursor.operator?
  rcases S.peekAt_left line with h | h <;> rw [h] <;> rfl

/-- What stands there instead stops an expression. -/
theorem Parted.peekAt_right (S : s.Parted) (line : Nat) :
    ((Cursor.mk line s.right).peekAt 0).kind.stops = true := by
  obtain ⟨t, ts, h, hk⟩ := S.right
  rw [h]
  exact hk

/-- In front of the seam the next tokens are of one kind. At the seam they need not be, but neither
is of a kind with which something goes on. -/
theorem Faces.kind_iff (S : s.Parted) (h : s.Faces c c') {k : Kind} (hk : k.stops = false) :
    (c.peekAt 0).kind = k ↔ (c'.peekAt 0).kind = k := by
  obtain ⟨line, us⟩ := c
  obtain ⟨line', us'⟩ := c'
  obtain ⟨hrests, -⟩ := h
  cases hrests with
  | seam =>
    -- Neither side is of such a kind here.
    have hleft := S.peekAt_left line
    have hright := S.peekAt_right line'
    constructor
    · rintro rfl
      rcases hleft with h | h
      · rw [h] at hk
        exact Bool.noConfusion hk
      · rw [h] at hk
        exact Bool.noConfusion hk
    · rintro rfl
      rw [hright] at hk
      exact Bool.noConfusion hk
  | @cons t t' _ _ alike =>
    show t.kind = k ↔ t'.kind = k
    rw [alike.kind]

/-- The operator behind a token is seen on both sides. -/
theorem operator?_of_facing (S : s.Parted) {t t' : Token} {us us' : List Token}
    (alike : s.Alike t t') (apart : us = s.left → s.Apart t') (rest : s.Facing us us') :
    (Cursor.mk t.pos.line us).operator? = (Cursor.mk t'.pos.line us').operator? := by
  cases rest with
  | seam =>
    refine (S.operator?_left _).trans (operator?_eq_none ?_ fun hi => ?_).symm
    · exact Kind.ofKind?_of_stops (S.peekAt_right _)
    · -- A word behind the seam stands on another line.
      obtain ⟨u, vs, hright, -⟩ := S.right
      rw [hright] at hi ⊢
      have hu : u.kind = .ident := hi
      exact (apart rfl).line u (by rw [hright]; rfl) (by simp [Token.isName, hu])
  | @cons u u' vs vs' hu =>
    show (if u.kind = .ident then
      if u.pos.line = t.pos.line then BinaryOp.ofWord? u.literal else none
      else BinaryOp.ofKind? u.kind) = if u'.kind = .ident then
      if u'.pos.line = t'.pos.line then BinaryOp.ofWord? u'.literal else none
      else BinaryOp.ofKind? u'.kind
    simp only [hu.kind, hu.literal, alike.line_eq_iff hu]

/-- Cursors behind alike tokens face each other if the tokens that are left do. -/
theorem faces_of_facing (S : s.Parted) {t t' : Token} {us us' : List Token}
    (alike : s.Alike t t') (apart : us = s.left → s.Apart t') (rest : s.Facing us us') :
    s.Faces ⟨t.pos.line, us⟩ ⟨t'.pos.line, us'⟩ :=
  ⟨rest, operator?_of_facing S alike apart rest⟩

/-- In front of the seam both cursors read the same token and face each other behind it. -/
theorem Faces.step (S : s.Parted) (h : s.Faces c c') (room : s.left.length < c.rest.length) :
    s.Alike (c.peekAt 0) (c'.peekAt 0) ∧ s.Faces c.skip c'.skip := by
  obtain ⟨line, us⟩ := c
  obtain ⟨line', us'⟩ := c'
  obtain ⟨hrests, -⟩ := h
  cases hrests with
  | seam => exact absurd room (Nat.lt_irrefl _)
  | @cons t t' us us' alike apart rest =>
    obtain ⟨hus, hus'⟩ := rest.ne_nil S
    obtain ⟨u, vs, rfl⟩ := List.exists_cons_of_ne_nil hus
    obtain ⟨u', vs', rfl⟩ := List.exists_cons_of_ne_nil hus'
    exact ⟨alike, faces_of_facing S alike apart rest⟩

/-- A token of another kind than those at the seam is in front of it. -/
theorem Faces.room (S : s.Parted) (h : s.Faces c c') {k : Kind} (hk : (c.peekAt 0).kind = k)
    (he : k ≠ .eof) (hc : k ≠ .comment) : s.left.length < c.rest.length := by
  obtain ⟨line, us⟩ := c
  obtain ⟨line', us'⟩ := c'
  obtain ⟨hrests, -⟩ := h
  cases hrests with
  | seam =>
    rcases S.peekAt_left line with h | h
    · exact absurd (hk.symm.trans h) he
    · exact absurd (hk.symm.trans h) hc
  | cons _ _ rest => exact Nat.lt_succ_of_le rest.length_le

/-- What is ahead in front of the seam is ahead on the other side. -/
theorem Faces.kind_eq (S : s.Parted) (h : s.Faces c c') {k : Kind} (hk : (c.peekAt 0).kind = k)
    (he : k ≠ .eof) (hc : k ≠ .comment) : (c'.peekAt 0).kind = k :=
  (h.step S (h.room S hk he hc)).1.kind.symm.trans hk

/-- A name stands in front of the seam, since none stands directly behind it. -/
theorem Faces.room_of_isName (S : s.Parted) (h : s.Faces c c') (hn : (c.peekAt 0).isName = true) :
    s.left.length < c.rest.length := by
  rcases Token.isName_iff.1 hn with hn | hn
  · exact h.room S hn Kind.noConfusion Kind.noConfusion
  · exact h.room S hn Kind.noConfusion Kind.noConfusion

/-- What is skipped in front of the seam is skipped on both sides. -/
theorem Facing.skipKinds (S : s.Parted) (p : Kind → Bool) {line line' : Nat}
    {us us' : List Token} (h : s.Facing us us')
    (ho : (Cursor.mk line us).operator? = (Cursor.mk line' us').operator?)
    (room : s.left.length < (Cursor.skipKinds p line us).rest.length) :
    s.Faces (Cursor.skipKinds p line us) (Cursor.skipKinds p line' us') := by
  induction h generalizing line line' with
  | seam =>
    exact absurd room (Nat.not_lt.2 (suffix_skipKinds p line s.left).length_le)
  | @cons t t' us us' alike apart rest ih =>
    obtain ⟨hus, hus'⟩ := rest.ne_nil S
    obtain ⟨u, vs, rfl⟩ := List.exists_cons_of_ne_nil hus
    obtain ⟨u', vs', rfl⟩ := List.exists_cons_of_ne_nil hus'
    simp only [Cursor.skipKinds, ← alike.kind] at room ⊢
    split at room
    next hp =>
      rw [if_pos hp, if_pos hp]
      exact ih (operator?_of_facing S alike apart rest) room
    next hp =>
      rw [if_neg hp, if_neg hp]
      exact ⟨.cons alike apart rest, ho⟩

/-- Comments are passed alike as long as the seam is not reached. -/
theorem Faces.skipComments (S : s.Parted) (h : s.Faces c c')
    (room : s.left.length < c.skipComments.rest.length) :
    s.Faces c.skipComments c'.skipComments :=
  h.rests.skipKinds S _ h.operator room

/-- So are separators. -/
theorem Faces.skipSeparators (S : s.Parted) (h : s.Faces c c')
    (room : s.left.length < c.skipSeparators.rest.length) :
    s.Faces c.skipSeparators c'.skipSeparators :=
  h.rests.skipKinds S _ h.operator room

/-! ## 3. Looking ahead -/

/-- Looking further ahead is looking ahead from the next token. -/
theorem peekAt_succ (c : Cursor) (n : Nat) : c.peekAt (n + 1) = c.skip.peekAt n := by
  obtain ⟨line, ts⟩ := c
  match ts with
  | [] => rfl
  | [t] => cases n <;> rfl
  | t :: u :: rest => rfl

/-- An `ELSE` is looked for behind comments only. -/
theorem elseAhead_cons (line line' : Nat) (t : Token) (ts : List Token) :
    Rule.elseAhead ⟨line, t :: ts⟩ = if t.kind = .comment then Rule.elseAhead ⟨line', ts⟩
      else (t.kind = .elseIfWord || t.kind = .elseWord) := by
  unfold Rule.elseAhead
  by_cases hk : t.kind = .comment <;> simp [hk]

/-- An `ELSE` is seen on both sides or on neither. -/
theorem Faces.elseAhead (S : s.Parted) (h : s.Faces c c') :
    Rule.elseAhead c = Rule.elseAhead c' := by
  obtain ⟨line, us⟩ := c
  obtain ⟨line', us'⟩ := c'
  obtain ⟨hrests, -⟩ := h
  dsimp only at hrests
  induction hrests generalizing line line' with
  | seam => exact S.elseLeft.trans S.elseRight.symm
  | cons alike _ _ ih => rw [elseAhead_cons line 0, elseAhead_cons line' 0, alike.kind, @ih 0 0]

/-- Passing a token shortens what is left by one, except at the end. -/
theorem length_skip {c : Cursor} (h : 1 < c.rest.length) :
    c.skip.rest.length + 1 = c.rest.length := by
  obtain ⟨line, ts⟩ := c
  match ts with
  | [] | [_] => simp at h
  | t :: u :: rest => rfl

/-- The tokens begin with a name and an arrow. -/
def OpensArrow (ts : List Token) : Prop :=
  ∃ u v rest, ts = u :: v :: rest ∧ u.isName = true ∧ v.kind = .arrow

/-- The statement ahead is not the name of a relation that becomes the relation of an arrow behind
the seam. -/
def Clear (s : Seam) (c : Cursor) : Prop :=
  ∀ t, c.rest = t :: s.left → t.kind = .ident → (Relation.ofName? t.literal).isSome = true →
    ¬OpensArrow s.right

/-- When one token is left in front of the seam, it is alike on both sides and stands apart from what
follows. -/
theorem Faces.last_of_length (h : s.Faces c c') (room : s.left.length < c.rest.length)
    (last : c.rest.length ≤ s.left.length + 1) : ∃ t t', c.rest = t :: s.left ∧
      c'.rest = t' :: s.right ∧ s.Alike t t' ∧ s.Apart t' := by
  obtain ⟨line, us⟩ := c
  obtain ⟨line', us'⟩ := c'
  obtain ⟨hrests, -⟩ := h
  cases hrests with
  | seam => exact absurd room (Nat.lt_irrefl _)
  | @cons t t' _ _ alike apart rest =>
    obtain ⟨hus, hus'⟩ := rest.eq_of_length (Nat.le_of_succ_le_succ last)
    exact ⟨t, t', by rw [hus], by rw [hus'], alike, apart hus⟩

theorem skip_of_rest {c : Cursor} {t : Token} {us : List Token} (h : c.rest = t :: us)
    (hus : us ≠ []) : c.skip = ⟨t.pos.line, us⟩ := by
  obtain ⟨_, ts⟩ := c
  obtain rfl : ts = t :: us := h
  obtain ⟨u, vs, rfl⟩ := List.exists_cons_of_ne_nil hus
  rfl

/-- A list of at least two tokens whose second is an arrow opens one if its first is a name. -/
theorem opensArrow_of_peekAt {line : Nat} {ts : List Token}
    (hn : ((Cursor.mk line ts).peekAt 0).isName = true)
    (ha : ((Cursor.mk line ts).peekAt 1).kind = .arrow) : OpensArrow ts := by
  match ts with
  | [] => exact Bool.noConfusion hn
  | [t] =>
    have ht : t.kind = .arrow := ha
    have hn : t.isName = true := hn
    simp [Token.isName, ht] at hn
  | u :: v :: rest => exact ⟨u, v, rest, rfl, hn, ha⟩

/-- A cursor with more than one token in front of the seam is clear of it. -/
theorem clear_of_length (room : s.left.length + 1 < c.rest.length) : s.Clear c := by
  intro t ht
  rw [ht] at room
  exact absurd room (Nat.lt_irrefl _)

/-- An arrow is seen on both sides or on neither. -/
theorem Faces.arrowAhead? (S : s.Parted) (h : s.Faces c c')
    (room : s.left.length < c.rest.length) (clear : s.Clear c) :
    Rule.arrowAhead? c = Rule.arrowAhead? c' := by
  obtain ⟨alike, hskip⟩ := h.step S room
  have harrow : (c.peekAt 1).kind = .arrow ↔ (c'.peekAt 1).kind = .arrow := by
    rw [peekAt_succ, peekAt_succ]
    exact hskip.kind_iff S rfl
  have typed :
      (if (c.peekAt 0).kind = .ident ∧ (c.peekAt 1).isName ∧ (c.peekAt 2).kind = .arrow then
      Relation.ofName? (c.peekAt 0).literal else none) =
      if (c'.peekAt 0).kind = .ident ∧ (c'.peekAt 1).isName ∧ (c'.peekAt 2).kind = .arrow then
        Relation.ofName? (c'.peekAt 0).literal else none := by
    by_cases room₁ : s.left.length + 1 < c.rest.length
    · obtain ⟨alike₁, hskip₁⟩ := hskip.step S (by rw [← length_skip (by omega)] at room₁; omega)
      have harrow₁ := hskip₁.kind_iff S (k := .arrow) rfl
      simp only [peekAt_succ c 1, peekAt_succ c' 1, peekAt_succ c.skip 0, peekAt_succ c'.skip 0,
        peekAt_succ c 0, peekAt_succ c' 0, alike.kind, alike.literal, alike₁.isName, harrow₁]
    · -- The statement ahead ends with its first token.
      obtain ⟨t, t', hrest, hrest', htt, -⟩ := h.last_of_length room (by omega)
      have hname : ¬(c.peekAt 1).isName = true := by
        rw [peekAt_succ, skip_of_rest hrest S.left_ne_nil]
        rcases S.peekAt_left t.pos.line with h | h <;> simp [Token.isName, h]
      rw [if_neg fun h => hname h.2.1]
      split
      next hopens =>
        obtain ⟨hi, hn, ha⟩ := hopens
        rw [peekAt_succ, skip_of_rest hrest' S.right_ne_nil] at hn ha
        have hfirst : c.peekAt 0 = t := by
          unfold Cursor.peekAt
          rw [hrest]
          rfl
        have hlone := clear t hrest (by rw [← hfirst, alike.kind, hi])
        rw [← hfirst, alike.literal] at hlone
        by_contra hrelation
        exact hlone (Option.isSome_iff_ne_none.2 (Ne.symm hrelation)) (opensArrow_of_peekAt hn ha)
      next => rfl
  unfold Rule.arrowAhead?
  simp only [typed, alike.isName, harrow]

/-- A label on the line of its block is seen on both sides or on neither. -/
theorem Faces.labelAhead (S : s.Parted) (h : s.Faces c c') (room : s.left.length < c.rest.length) :
    ((c.peekAt 1).isName = true ∧ (c.peekAt 1).pos.line = (c.peekAt 0).pos.line ∧
        (c.peekAt 2).kind = .lbrace) ↔
      ((c'.peekAt 1).isName = true ∧ (c'.peekAt 1).pos.line = (c'.peekAt 0).pos.line ∧
        (c'.peekAt 2).kind = .lbrace) := by
  obtain ⟨alike, hskip⟩ := h.step S room
  by_cases room₁ : s.left.length + 1 < c.rest.length
  · obtain ⟨alike₁, hskip₁⟩ := hskip.step S (by rw [← length_skip (by omega)] at room₁; omega)
    have hbrace := hskip₁.kind_iff S (k := .lbrace) rfl
    simp only [peekAt_succ c 1, peekAt_succ c' 1, peekAt_succ c.skip 0, peekAt_succ c'.skip 0,
      peekAt_succ c 0, peekAt_succ c' 0, alike₁.isName, alike.line_eq_iff alike₁, hbrace]
  · -- Behind the seam a name stands on another line.
    obtain ⟨t, t', hrest, hrest', -, hapart⟩ := h.last_of_length room (by omega)
    obtain ⟨u, us, hright, -⟩ := S.right
    have hne := S.right_ne_nil
    have hfirst : c'.peekAt 0 = t' := by
      unfold Cursor.peekAt
      rw [hrest']
      rfl
    rw [peekAt_succ c 0, skip_of_rest hrest S.left_ne_nil, peekAt_succ c' 0,
      skip_of_rest hrest' hne, hfirst]
    constructor
    · rintro ⟨hn, -⟩
      rcases S.peekAt_left t.pos.line with h | h <;> simp [Token.isName, h] at hn
    · rintro ⟨hn, hl, -⟩
      rw [hright] at hn hl
      exact absurd hl (hapart.line u (by rw [hright]; rfl) hn)

/-- Tokens that are not gone through up to a comma behind the seam when targets or values are looked
for: there is no comma, or a brace is closed in front of the seam. -/
def Shut (s : Seam) (us : List Token) : Prop :=
  (∀ t ∈ s.right.head?, t.kind ≠ .comma) ∨
    ∃ front, us = front ++ s.left ∧ ∃ t ∈ front, t.kind = .rbrace

/-- A clean seam is shut, whatever tokens stand in front of it. -/
theorem Clean.shut (S : s.Clean) (us : List Token) : s.Shut us := by
  obtain ⟨t, ts, hright, hk⟩ := S.right
  refine .inl fun u hu hc => ?_
  rw [hright] at hu
  obtain rfl := Option.some.inj hu
  rw [hc] at hk
  exact Bool.noConfusion hk

/-- It stays shut with more tokens in front. -/
theorem Shut.cons {us : List Token} (h : s.Shut us) (t : Token) : s.Shut (t :: us) := by
  refine h.imp id ?_
  rintro ⟨front, rfl, u, hu, hk⟩
  exact ⟨t :: front, rfl, u, List.mem_cons_of_mem t hu, hk⟩

/-- Another token than a brace does not close anything. -/
theorem Shut.tail {t : Token} {us : List Token} (h : s.Shut (t :: us)) (ht : t.kind ≠ .rbrace)
    (room : s.left.length ≤ us.length) : s.Shut us := by
  refine h.imp id ?_
  rintro ⟨front, hus, u, hu, hk⟩
  rcases front with _ | ⟨x, front⟩
  · exact absurd hu List.not_mem_nil
  · obtain ⟨rfl, rfl⟩ := List.cons.inj hus
    refine ⟨front, rfl, u, (List.mem_cons.1 hu).resolve_left ?_, hk⟩
    rintro rfl
    exact ht hk

/-- A seam that is shut at its own place is followed by no comma. -/
theorem Shut.of_left (h : s.Shut s.left) : ∀ t ∈ s.right.head?, t.kind ≠ .comma := by
  refine h.resolve_right ?_
  rintro ⟨front, hfront, u, hu, -⟩
  obtain rfl := List.append_left_eq_self.1 hfront.symm
  exact absurd hu List.not_mem_nil

/-- A comma is ahead on both sides or on neither. -/
theorem Faces.comma_iff (S : s.Parted) (h : s.Faces c c') (shut : s.Shut c.rest) :
    (c.peekAt 0).kind = .comma ↔ (c'.peekAt 0).kind = .comma := by
  refine ⟨fun hk => h.kind_eq S hk Kind.noConfusion Kind.noConfusion, fun hk => ?_⟩
  by_cases room : s.left.length < c.rest.length
  · exact (h.step S room).1.kind.trans hk
  · obtain ⟨hleft, hright⟩ := h.rests.eq_of_length (Nat.not_lt.1 room)
    obtain ⟨t, ts, hts, -⟩ := S.right
    rw [hleft] at shut
    refine absurd ?_ (shut.of_left t (by rw [hts]; rfl))
    rw [← hk, Cursor.peekAt, hright, hts]
    rfl

/-- No target stands right in front of the seam. -/
theorem targetList?_right (S : s.Parted) (shut : s.Shut s.left) (t : Token) :
    Rule.targetList? (t :: s.right) = none := by
  obtain ⟨u, us, hright, hk⟩ := S.right
  have hc : u.kind ≠ .comma := shut.of_left u (by rw [hright]; rfl)
  have ha : u.kind ≠ .assign := fun h => by simp [h, Kind.stops, Kind.begins] at hk
  simp [hright, Rule.targetList?, hc, ha]

/-- Targets are found on both sides, and what is behind them faces each other, -/
theorem Facing.targetList? (S : s.Parted) {us us' rest : List Token} {targets : List Target}
    {sign : Token} (h : s.Facing us us') (ht : Rule.targetList? us = some (targets, sign, rest))
    (room : s.left.length ≤ rest.length) :
    ∃ targets' sign' rest', Rule.targetList? us' = some (targets', sign', rest') ∧
      (targets.map fun t => (⟨t.name, t.pos.moved s.here⟩ : Target)) =
        targets'.map (fun t => ⟨t.name, t.pos.moved s.there⟩) ∧
      s.Faces ⟨sign.pos.line, rest⟩ ⟨sign'.pos.line, rest'⟩ := by
  fun_induction Rule.targetList? us generalizing us' targets with
  | case1 t u us hk hu ih =>
    obtain ⟨⟨targets₁, sign₁, rest₁⟩, ht₁, he⟩ := Option.map_eq_some_iff.1 ht
    simp only [Prod.mk.injEq] at he
    obtain ⟨rfl, rfl, rfl⟩ := he
    have hl := (suffix_of_targetList? ht₁).length_le
    obtain ⟨t', vs', rfl, halike, -, h⟩ :=
      h.uncons_of_length (by simp only [List.length_cons]; omega)
    obtain ⟨u', vs', rfl, halike₁, -, h⟩ := h.uncons_of_length (by omega)
    obtain ⟨targets', sign', rest', ht', htargets, hfaces⟩ := ih h ht₁
    refine ⟨⟨t'.literal, t'.pos⟩ :: targets', sign', rest', ?_, ?_, hfaces⟩
    · simp [Rule.targetList?, ← halike.kind, ← halike₁.kind, hk, hu, ht']
    · rw [List.map_cons, List.map_cons, htargets, halike.literal, halike.pos]
  | case2 t u us hk _ hu =>
    simp only [Option.some.injEq, Prod.mk.injEq] at ht
    obtain ⟨rfl, rfl, rfl⟩ := ht
    obtain ⟨t', vs', rfl, halike, -, h⟩ :=
      h.uncons_of_length (by simp only [List.length_cons]; omega)
    obtain ⟨u', vs', rfl, halike₁, hapart, h⟩ := h.uncons_of_length room
    refine ⟨[⟨t'.literal, t'.pos⟩], u', vs', ?_, ?_, faces_of_facing S halike₁ hapart h⟩
    · simp [Rule.targetList?, ← halike.kind, ← halike₁.kind, hk, hu]
    · rw [List.map_singleton, List.map_singleton, halike.literal, halike.pos]
  | case3 | case4 | case5 => simp at ht

/-- or on neither. -/
theorem Facing.targetList?_none (S : s.Parted) {us us' : List Token} (h : s.Facing us us')
    (hr : us = s.left → Rule.targetList? s.right = none) (shut : s.Shut us)
    (ht : Rule.targetList? us = none) : Rule.targetList? us' = none := by
  fun_induction Rule.targetList? us generalizing us' with
  | case1 t u us hk hu ih =>
    rcases h.uncons with ⟨hus, rfl⟩ | ⟨t', vs', rfl, halike, -, h⟩
    · exact hr hus
    have hroom := h.length_le
    rcases h.uncons with ⟨hus, -⟩ | ⟨u', vs', rfl, halike₁, hapart, h⟩
    · -- The seam begins with no comma.
      rcases S.left u (by rw [← hus]; rfl) with hu' | hu' <;> simp [hu'] at hu
    have hshut := (shut.tail (by simp [hk]) hroom).tail (by simp [hu]) h.length_le
    have hrest := ih h (fun hus => (hapart hus).comma (halike₁.kind ▸ hu)) hshut
      (Option.map_eq_none_iff.1 ht)
    simp [Rule.targetList?, hrest, ← halike₁.kind, hu]
  | case2 => simp at ht
  | case3 t u us hk hc ha =>
    rcases h.uncons with ⟨hus, rfl⟩ | ⟨t', vs', rfl, halike, -, h⟩
    · exact hr hus
    have hroom := h.length_le
    rcases h.uncons with ⟨hus, rfl⟩ | ⟨u', vs', rfl, halike₁, -, -⟩
    · exact targetList?_right S (hus ▸ shut.tail (by simp [hk]) hroom) t'
    · simp [Rule.targetList?, ← halike₁.kind, hc, ha]
  | case4 t u us hk =>
    rcases h.uncons with ⟨hus, rfl⟩ | ⟨t', vs', rfl, halike, -, h⟩
    · exact hr hus
    rw [halike.kind] at hk
    rcases vs' with _ | ⟨u', vs'⟩
    · rfl
    · simp [Rule.targetList?, hk]
  | case5 us hus =>
    cases us with
    | nil => exact absurd rfl (h.ne_nil S).1
    | cons t us =>
      rcases h.uncons with ⟨hus, rfl⟩ | ⟨t', vs', rfl, halike, -, h⟩
      · exact hr hus
      cases us with
      | nil => exact absurd rfl (h.ne_nil S).1
      | cons u us => exact absurd rfl (hus t u us)

end Seam

end BlockConfig
