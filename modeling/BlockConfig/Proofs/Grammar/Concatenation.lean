import BlockConfig.Proofs.Grammar.ReadingValues
import BlockConfig.Proofs.Grammar.Transfer
import BlockConfig.Proofs.Lexing.Joining

/-!
One document behind another.

If a document ends with a line feed, another one may be written behind it: the statements of both
are read, those of the second one moved down. Behind the line feed nothing continues what is in
front of it, since words, labels and calls only do so on their own line and no statement begins with
any other mark that could. A comma is the exception that both documents have to leave out, and there
is one more, which looks like a statement of its own: the bare name of a relation in front of an
arrow (`Node.RunsOn`). An arrow takes the name in front of it for its relation on whatever line that
stands. With that exception the statements of both documents are read, without it they are not
(`Node.parse_append_iff`).
-/

set_option autoImplicit false

namespace BlockConfig

open Cursor Rule Node

namespace Seam

variable {s : Seam} {c c' : Cursor}

/-! ## 1. Lists up to the seam -/

/-- The last token in front of the seam is the bare name of a relation, which is the last statement,
and behind the seam an arrow begins. -/
def RunsOn (s : Seam) (ts : List Token) (ns : List Node) : Prop :=
  ∃ front t, ts = front ++ t :: s.left ∧ t.kind = .ident ∧
    (Relation.ofName? t.literal).isSome = true ∧
    ns.getLast? = some (.assign ⟨t.literal, t.pos⟩ (.literal (.bool true)) .flag) ∧
    OpensArrow s.right

/-- A statement whose only token is a name is a flag. -/
theorem flag_of_last (S : s.Parted) {n : Nat} {t : Token} {node : Node} {d : Cursor}
    (hrest : c.rest = t :: s.left) (hi : t.kind = .ident)
    (h : (Rule.statement n).Gives c node d) :
    node = .assign ⟨t.literal, t.pos⟩ (.literal (.bool true)) .flag := by
  have hfirst : c.peekAt 0 = t := by
    unfold Cursor.peekAt
    rw [hrest]
    rfl
  -- Behind the name the first text has nothing but comments, so no other form can go on.
  have hnext : (c.peekAt 1).kind = .eof ∨ (c.peekAt 1).kind = .comment := by
    rw [peekAt_succ, skip_of_rest hrest S.left_ne_nil]
    exact S.peekAt_left t.pos.line
  have hname : ¬(c.peekAt 1).isName = true := by
    rcases hnext with h | h <;> simp [Token.isName, h]
  cases n with
  | zero => exact absurd h (not_gives_exhausted _ _ _)
  | succ n =>
    cases (gives_statement _ _ _ _).1 h with
    | comment hk | directive hk | control hk =>
      rw [hfirst, hi] at hk
      exact Kind.noConfusion hk
    | arrow _ ha =>
      have hno : Rule.arrowAhead? c = none := by
        unfold Rule.arrowAhead?
        rcases hnext with h | h <;> simp [hname, h]
      rw [hno] at ha
      cases ha
    | named _ _ hb =>
      cases n with
      | zero => exact absurd hb (not_gives_exhausted _ _ _)
      | succ n =>
        cases (gives_blockOrAssignment _ _ _ _).1 hb with
        | block hn | assignEach _ hn | destructure _ hn =>
          rcases hnext with h | h <;> rw [h] at hn <;> exact Kind.noConfusion hn
        | labelled hn => exact absurd hn hname
        | assign hn =>
          rcases hnext with h | h <;> rw [h] at hn <;> rcases hn with hn | hn <;> cases hn
        | flag => rw [hfirst]

/-! ## 2. Documents up to the seam -/

/-- A document is read up to the end of input, and each of its statements takes a token. -/
theorem ends_of_document {n : Nat} {ns : List Node} {d : Cursor} (hc : c.Ended)
    (h : (document n).Gives c ns d) : d.Ended ∧ (d.peekAt 0).kind = .eof ∧ d.rest <:+ c.rest ∧
      (ns ≠ [] → d.rest.length < c.rest.length) := by
  induction n generalizing c ns with
  | zero => exact absurd h (not_gives_exhausted _ _ _)
  | succ n ih =>
    have hsuffix := c.suffix_skipSeparators
    rcases (gives_document _ _ _ _).1 h with ⟨hk, rfl, rfl⟩ | ⟨-, first, e, others, hs, ho, rfl⟩
    · exact ⟨hc.skipSeparators, hk, hsuffix, fun h => absurd rfl h⟩
    · have he := (forward n).statement hc.skipSeparators hs
      obtain ⟨hd, heof, hrest, -⟩ := ih he.ended ho
      exact ⟨hd, heof, hrest.trans (he.suffix.trans hsuffix), fun _ =>
        Nat.lt_of_le_of_lt hrest.length_le (Nat.lt_of_lt_of_le he.shorter hsuffix.length_le)⟩

/-- Separators in front of a document do not matter. -/
theorem document_of_skipSeparators {n : Nat} {ns : List Node} {d : Cursor}
    (h : (document n).Gives c ns d) (hc : c'.skipSeparators = c.skipSeparators) :
    (document n).Gives c' ns d := by
  cases n with
  | zero => exact absurd h (not_gives_exhausted _ _ _)
  | succ n =>
    rw [gives_document] at h ⊢
    rw [hc]
    exact h

/-- If nothing but separators is in front of the seam, both sides get there. -/
theorem Faces.reaches (S : s.Parted) (h : s.Faces c c') (hend : c.skipSeparators.rest = s.left) :
    ∃ line, (Cursor.mk line s.right).operator? = none ∧
      c'.skipSeparators = (Cursor.mk line s.right).skipSeparators := by
  obtain ⟨line, us⟩ := c
  obtain ⟨line', us'⟩ := c'
  obtain ⟨hrests, hop⟩ := h
  dsimp only at hrests
  induction hrests generalizing line line' with
  | seam =>
    exact ⟨line', hop.symm.trans (S.operator?_left line), rfl⟩
  | @cons t t' us us' halike hapart hus ih =>
    obtain ⟨hne, hne'⟩ := hus.ne_nil S
    obtain ⟨u, vs, rfl⟩ := List.exists_cons_of_ne_nil hne
    obtain ⟨u', vs', rfl⟩ := List.exists_cons_of_ne_nil hne'
    have hl := hus.length_le
    simp only [Cursor.skipSeparators, Cursor.skipKinds, ← halike.kind] at hend ⊢
    split at hend
    next hk =>
      rw [if_pos hk]
      exact ih _ hend _ (operator?_of_facing S halike hapart hus)
    next hk =>
      rw [← hend] at hl
      exact absurd hl (Nat.not_le.2 (Nat.lt_succ_self _))

/-- **A document goes on behind the seam** with what can be read there, unless a relation runs
on. -/
theorem Faces.document (clean : s.Clean) {n least : Nat} {more : List Node}
    (hmore : ∀ line, (Cursor.mk line s.right).operator? = none → ∀ k, least ≤ k →
      ∃ d', (Rule.document k).Gives ⟨line, s.right⟩ more d')
    {ns : List Node} {d : Cursor} (hf : s.Faces c c') (h : (Rule.document n).Gives c ns d)
    (hend : d.rest = s.left) (hclear : ¬s.RunsOn c.rest ns) {k : Nat} (hn : n ≤ k)
    (hk : least + c.rest.length ≤ k + s.left.length) :
    ∃ ns' d', (Rule.document k).Gives c' (ns' ++ more) d' ∧ s.SameTrees ns ns' := by
  have S := clean.parted
  induction n generalizing c c' ns k with
  | zero => exact absurd h (not_gives_exhausted _ _ _)
  | succ n ih =>
    have hc := hf.ended S
    rcases (gives_document _ _ _ _).1 h with ⟨-, rfl, rfl⟩ | ⟨heof, first, e, others, hs, ho, rfl⟩
    · -- What is left are separators, and behind them the seam.
      obtain ⟨line, hop, hskip⟩ := hf.reaches S hend
      have hl := hf.rests.length_le
      obtain ⟨d', hd'⟩ := hmore line hop k (by omega)
      exact ⟨[], d', document_of_skipSeparators hd' hskip, rfl⟩
    · have he := (forward n).statement hc.skipSeparators hs
      obtain ⟨-, -, hrest, l₂⟩ := ends_of_document he.ended ho
      have l₁ := hrest.length_le
      have l₃ := he.shorter
      have l₄ := c.length_skipSeparators_le
      rw [hend] at l₁ l₂
      -- No relation runs on from the first statement, and none from the others.
      have hclear₁ : s.Clear c.skipSeparators := by
        intro t ht hi hr hopens
        rw [ht, List.length_cons] at l₃
        have hothers : others = [] := by
          by_contra hne
          have := l₂ hne
          omega
        obtain ⟨front, hfront⟩ := c.suffix_skipSeparators
        refine hclear ⟨front, t, by rw [← hfront, ht], hi, hr, ?_, hopens⟩
        rw [hothers, flag_of_last S ht hi hs]
        rfl
      have hclear₂ : ¬s.RunsOn e.rest others := by
        rintro ⟨front, t, ht, hi, hr, hlast, hopens⟩
        obtain ⟨before, hbefore⟩ := he.suffix.trans c.suffix_skipSeparators
        refine hclear ⟨before ++ front, t, ?_, hi, hr, ?_, hopens⟩
        · rw [← hbefore, ht, List.append_assoc]
        · cases others with
          | nil => cases hlast
          | cons node nodes => exact List.getLast?_cons_cons.trans hlast
      obtain ⟨k, rfl⟩ : ∃ j, k = j + 1 := ⟨k - 1, by omega⟩
      have hfc := hf.skipSeparators S (by omega)
      obtain ⟨halike, -⟩ := hfc.step S (by omega)
      obtain ⟨first', e', hs', hfirst, hfe⟩ :=
        (transferred S n).statement hclear₁ hfc hs l₁ (clean.shut _) k (by omega)
      obtain ⟨others', d', ho', hothers⟩ := ih (k := k) hfe ho hclear₂ (by omega) (by omega)
      refine ⟨first' :: others', d', (gives_document _ _ _ _).2
        (.inr ⟨halike.kind ▸ heof, first', e', others' ++ more, hs', ho', rfl⟩), ?_⟩
      simp only [SameTree, SameTrees, mapPosAll] at hfirst hothers ⊢
      rw [hfirst, hothers]

/-- A flag is one token. -/
theorem skip_of_flag {n : Nat} {target : Target} {value : Node} {d : Cursor} (hc : c.Ended)
    (h : (Rule.statement n).Gives c (.assign target value .flag) d) : d = c.skip := by
  cases n with
  | zero => exact absurd h (not_gives_exhausted _ _ _)
  | succ n =>
    generalize hnode : Node.assign target value .flag = node at h
    cases (gives_statement _ _ _ _).1 h with
    | comment | control => cases hnode
    | directive _ hd =>
      obtain ⟨-, -, hvalue, -⟩ := (sound (D := fun _ => True) n).directive hc hd
      rw [← hnode] at hvalue
      cases hvalue
    | arrow _ _ hr =>
      cases n with
      | zero => exact absurd hr (not_gives_exhausted _ _ _)
      | succ n =>
        obtain ⟨_, _, _, _, _, _, _, rfl⟩ := (gives_arrow _ _ _ _ _).1 hr
        cases hnode
    | named _ _ hb =>
      cases n with
      | zero => exact absurd hb (not_gives_exhausted _ _ _)
      | succ n =>
        cases (gives_blockOrAssignment _ _ _ _).1 hb with
        | block | labelled =>
          rcases ofBlock_eq _ _ _ _ with h | ⟨-, h⟩ <;> rw [h] at hnode <;> cases hnode
        | assign =>
          have hstyle := (Node.assign.inj hnode).2.2
          split at hstyle <;> cases hstyle
        | assignEach | destructure => cases hnode
        | flag => rfl

/-- What is skipped on the way to the seam are separators. -/
theorem isSeparator_of_skipped {p : Kind → Bool} {line : Nat} {front left : List Token} {t : Token}
    (hleft : left ≠ []) (h : (Cursor.skipKinds p line (front ++ t :: left)).rest = left) :
    p t.kind = true := by
  obtain ⟨u, us, rfl⟩ := List.exists_cons_of_ne_nil hleft
  have stays : ∀ (front : List Token) {t : Token}, front ++ t :: u :: us ≠ u :: us := by
    intro front t h
    have hlength := congrArg List.length h
    rw [List.length_append, List.length_cons] at hlength
    omega
  induction front generalizing line with
  | nil =>
    rw [List.nil_append, Cursor.skipKinds] at h
    split at h
    next hp => exact hp
    next => exact absurd h (stays [])
  | cons x front ih =>
    obtain ⟨y, ys, hys⟩ : ∃ y ys, front ++ t :: u :: us = y :: ys :=
      List.exists_cons_of_ne_nil (List.append_ne_nil_of_right_ne_nil front (List.cons_ne_nil t _))
    rw [List.cons_append, hys, Cursor.skipKinds, ← hys] at h
    split at h
    next => exact ih h
    next => exact absurd h (stays (x :: front))

/-- An end of a list that is longer than what is behind a token begins with that token or before. -/
theorem exists_front_of_suffix {front ts left : List Token} {t : Token}
    (h : ts <:+ front ++ t :: left) (hl : left.length < ts.length) :
    ∃ front', ts = front' ++ t :: left := by
  obtain ⟨front', hfront⟩ :=
    List.suffix_of_suffix_length_le (List.suffix_append front (t :: left)) h hl
  exact ⟨front', hfront.symm⟩

/-- The name of a relation in front of a name and an arrow is the relation of that arrow. -/
theorem arrow_of_relation {n : Nat} {t : Token} {ts : List Token} {node : Node} {d : Cursor}
    (hrest : c.rest = t :: ts) (hi : t.kind = .ident)
    (hr : (Relation.ofName? t.literal).isSome = true) (hopens : OpensArrow ts)
    (h : (Rule.statement n).Gives c node d) :
    ∃ relation source target properties pos,
      node = .arrow relation source target properties pos := by
  obtain ⟨u, v, rest, rfl, hu, hv⟩ := hopens
  have hfirst : c.peekAt 0 = t := by
    unfold Cursor.peekAt
    rw [hrest]
    rfl
  have hskip : c.skip = ⟨t.pos.line, u :: v :: rest⟩ := skip_of_rest hrest (List.cons_ne_nil u _)
  have h1 : c.peekAt 1 = u := by
    rw [peekAt_succ, hskip]
    rfl
  have h2 : c.peekAt 2 = v := by
    rw [peekAt_succ, hskip]
    rfl
  obtain ⟨r, hrelation⟩ := Option.isSome_iff_exists.1 hr
  -- The rule looks for arrows before anything else that begins with a name.
  have ha : Rule.arrowAhead? c = some (some r) := by
    unfold Rule.arrowAhead?
    simp [hfirst, h1, h2, hi, hu, hv, hrelation]
  cases n with
  | zero => exact absurd h (not_gives_exhausted _ _ _)
  | succ n =>
    cases (gives_statement _ _ _ _).1 h with
    | comment hk | directive hk | control hk =>
      rw [hfirst, hi] at hk
      exact Kind.noConfusion hk
    | arrow _ _ hr =>
      cases n with
      | zero => exact absurd hr (not_gives_exhausted _ _ _)
      | succ n =>
        obtain ⟨_, _, _, _, _, properties, _, rfl⟩ := (gives_arrow _ _ _ _ _).1 hr
        exact ⟨_, _, _, _, _, rfl⟩
    | named _ hno =>
      rw [ha] at hno
      cases hno

/-- A document that is a flag and ends with a name ends with that flag, since behind the flag only
separators could stand. -/
theorem length_le_of_flag (S : s.Parted) {n : Nat} {front : List Token} {t : Token} {target : Target}
    {value : Node} {d e : Cursor} (hc : c.Ended)
    (hs : (Rule.statement n).Gives c (.assign target value .flag) e)
    (ho : (Rule.document n).Gives e [] d) (hend : d.rest = s.left)
    (ht : c.rest <:+ front ++ t :: s.left) (hi : t.kind = .ident) :
    c.rest.length ≤ s.left.length + 1 := by
  by_contra hroom
  obtain rfl := skip_of_flag hc hs
  have hskip := length_skip (by omega : 1 < c.rest.length)
  obtain ⟨front', hfront⟩ := exists_front_of_suffix (c.suffix_skip.trans ht) (by omega)
  have hreached : c.skip.skipSeparators.rest = s.left := by
    cases n with
    | zero => exact absurd ho (not_gives_exhausted _ _ _)
    | succ n =>
      rcases (gives_document _ _ _ _).1 ho with ⟨-, -, rfl⟩ | ⟨-, _, _, _, -, -, hnil⟩
      · exact hend
      · cases hnil
  rw [Cursor.skipSeparators, hfront] at hreached
  have hseparator := isSeparator_of_skipped S.left_ne_nil hreached
  rw [hi] at hseparator
  cases hseparator

/-- The bare name of a relation right in front of the seam is a flag here and the relation of an
arrow there. -/
theorem not_sameTree_of_relation (S : s.Parted) (hf : s.Faces c c') {n k : Nat} {front : List Token}
    {t : Token} {node node' : Node} {e e' : Cursor} (ht : c.rest <:+ front ++ t :: s.left)
    (hi : t.kind = .ident) (hr : (Relation.ofName? t.literal).isSome = true)
    (hopens : OpensArrow s.right) (room : s.left.length < c.rest.length)
    (last : c.rest.length ≤ s.left.length + 1) (hs : (Rule.statement n).Gives c node e)
    (hs' : (Rule.statement k).Gives c' node' e') : ¬s.SameTree node node' := by
  obtain ⟨u, u', hrest, hrest', halike, -⟩ := hf.last_of_length room last
  obtain ⟨front', hfront⟩ := exists_front_of_suffix ht room
  obtain rfl : u = t := by
    have hnil : front' = [] := by
      have hl := congrArg List.length (hrest.symm.trans hfront)
      simp only [List.length_append, List.length_cons] at hl
      exact List.length_eq_zero_iff.1 (by omega)
    rw [hnil, hrest] at hfront
    exact (List.cons.inj hfront).1
  intro hsame
  rw [flag_of_last S hrest hi hs] at hsame
  obtain ⟨_, _, _, _, _, rfl⟩ :=
    arrow_of_relation hrest' (halike.kind ▸ hi) (halike.literal ▸ hr) hopens hs'
  simp [SameTree, mapPos] at hsame

/-- **A relation runs on.** If the first document ends in the name of one and the second begins like the
rest of an arrow, then what is read is not the first document with something behind it. -/
theorem Faces.document_runsOn (clean : s.Clean) {n : Nat} {ns ns' more : List Node} {d d' : Cursor}
    (hf : s.Faces c c') (h : (Rule.document n).Gives c ns d) (hend : d.rest = s.left)
    (hruns : s.RunsOn c.rest ns) {k : Nat} (hn : n ≤ k)
    (h' : (Rule.document k).Gives c' (ns' ++ more) d') : ¬s.SameTrees ns ns' := by
  have S := clean.parted
  -- By induction on the statements: the first ones are the same until the relation is reached.
  induction n generalizing c c' ns ns' k with
  | zero => exact absurd h (not_gives_exhausted _ _ _)
  | succ n ih =>
    obtain ⟨front, t, ht, hi, hr, hlast, hopens⟩ := hruns
    have hc := hf.ended S
    rcases (gives_document _ _ _ _).1 h with ⟨-, rfl, rfl⟩ | ⟨heof, first, e, others, hs, ho, rfl⟩
    · cases hlast
    · have he := (forward n).statement hc.skipSeparators hs
      obtain ⟨-, -, hrest, l₂⟩ := ends_of_document he.ended ho
      have l₁ := hrest.length_le
      have l₃ := he.shorter
      have hsuffix : c.skipSeparators.rest <:+ front ++ t :: s.left :=
        ht ▸ c.suffix_skipSeparators
      rw [hend] at l₁ l₂
      obtain ⟨k, rfl⟩ : ∃ j, k = j + 1 := ⟨k - 1, by omega⟩
      have hfc := hf.skipSeparators S (by omega)
      rintro hsame
      obtain ⟨first', ns', rfl⟩ : ∃ first' others', ns' = first' :: others' := by
        cases ns' with
        | nil => cases hsame
        | cons first' others' => exact ⟨first', others', rfl⟩
      simp only [SameTrees, mapPosAll, List.cons.injEq] at hsame
      obtain ⟨hfirst, hothers⟩ := hsame
      rcases (gives_document _ _ _ _).1 h' with ⟨-, hnil, -⟩ |
        ⟨-, first₁, e', others', hs', ho', hcons⟩
      · cases hnil
      obtain ⟨rfl, rfl⟩ := List.cons.inj hcons
      by_cases hroom : s.left.length + 1 < c.skipSeparators.rest.length
      · -- The relation stands in what follows the first statements.
        have hne : others ≠ [] := by
          rintro rfl
          obtain rfl := Option.some.inj hlast
          exact absurd hroom
            (Nat.not_lt.2 (length_le_of_flag S hc.skipSeparators hs ho hend hsuffix hi))
        obtain ⟨first₁, e₁, hs₁, -, hfe⟩ :=
          (transferred S n).statement (clear_of_length hroom) hfc hs l₁ (clean.shut _) k (by omega)
        obtain ⟨rfl, rfl⟩ := Prod.mk.inj (Except.ok.inj (hs₁.symm.trans hs'))
        obtain ⟨front', hfront⟩ := exists_front_of_suffix (he.suffix.trans hsuffix) (l₂ hne)
        refine ih hfe ho ⟨front', t, hfront, hi, hr, ?_, hopens⟩ (by omega) ho' hothers
        obtain ⟨node, nodes, rfl⟩ := List.exists_cons_of_ne_nil hne
        exact List.getLast?_cons_cons.symm.trans hlast
      · exact not_sameTree_of_relation S hfc hsuffix hi hr hopens (by omega) (by omega) hs hs' hfirst

end Seam

/-! ## 3. What documents begin with -/

namespace Rule

variable {n : Nat} {c : Cursor} {ns : List Node} {d : Cursor}

/-- Statements begin with names, comments, directives and conditions. -/
theorem begins_of_statement {t : Node} (h : (statement n).Gives c t d) :
    (c.peekAt 0).kind.begins = true := by
  cases n with
  | zero => exact absurd h (not_gives_exhausted _ _ _)
  | succ n =>
    cases (gives_statement _ _ _ _).1 h with
    | comment hk | directive hk | control hk =>
      rw [hk]
      rfl
    | arrow hn | named hn =>
      rcases Token.isName_iff.1 hn with hn | hn <;> rw [hn] <;> rfl

/-- Documents begin like statements, with separators or with their end. -/
theorem begins_of_document (h : (document n).Gives c ns d)
    (hc : (c.peekAt 0).kind ≠ .comma) : (c.peekAt 0).kind.begins = true := by
  cases n with
  | zero => exact absurd h (not_gives_exhausted _ _ _)
  | succ n =>
    by_cases hs : (c.peekAt 0).kind = .semicolon
    · rw [hs]
      rfl
    have hskip : c.skipSeparators = c := by
      obtain ⟨line, ts⟩ := c
      cases ts with
      | nil => rfl
      | cons t ts => exact skipSeparators_of_not ⟨hs, hc⟩
    rw [gives_document, hskip] at h
    rcases h with ⟨hk, -⟩ | ⟨-, first, e, others, hs, -⟩
    · rw [hk]
      rfl
    · exact begins_of_statement hs

/-- No `ELSE` begins a document, not even behind comments. -/
theorem elseAhead_of_document (h : (document n).Gives c ns d) : elseAhead c = false := by
  induction n generalizing c ns with
  | zero => exact absurd h (not_gives_exhausted _ _ _)
  | succ n ih =>
    obtain ⟨line, ts⟩ := c
    cases ts with
    | nil => rfl
    | cons t ts =>
      rw [Seam.elseAhead_cons line t.pos.line]
      split
      next hk =>
        cases ts with
        | nil => rfl
        | cons u us =>
          have hskip : (Cursor.mk line (t :: u :: us)).skipSeparators = ⟨line, t :: u :: us⟩ :=
            skipSeparators_of_not (by simp [hk])
          rw [gives_document, hskip] at h
          rcases h with ⟨heof, -⟩ | ⟨-, first, e, others, hs, ho, -⟩
          · exact absurd (hk.symm.trans heof) Kind.noConfusion
          · cases n with
            | zero => exact absurd hs (not_gives_exhausted _ _ _)
            | succ n =>
              cases (gives_statement _ _ _ _).1 hs with
              | comment => exact ih ho
              | directive hk' | control hk' => exact absurd (hk.symm.trans hk') Kind.noConfusion
              | arrow hn | named hn =>
                rw [peekAt_zero_cons, Token.isName, hk] at hn
                cases hn
      next =>
        -- What is no comment would be the `ELSE` itself, and no statement begins with that.
        by_contra helse
        simp only [Bool.not_eq_false, Bool.or_eq_true, decide_eq_true_eq] at helse
        have hbegins := begins_of_document h (by rcases helse with hk | hk <;> simp [hk])
        rw [peekAt_zero_cons] at hbegins
        rcases helse with hk | hk <;> rw [hk] at hbegins <;> cases hbegins

end Rule

/-! ## 4. Texts -/

namespace Token

/-- The first token of a text, perhaps the end of input. -/
def first? (cs : List Char) : Option Token :=
  (list cs).toOption.bind List.head?

/-- The last token of a text in front of the end of input. -/
def last? (cs : List Char) : Option Token :=
  (list cs).toOption.bind fun ts => ts.dropLast.getLast?

theorem last?_of_list {cs : List Char} {init : List Token} {last : Token}
    (h : list cs = .ok (init ++ [last])) : last? cs = init.getLast? := by
  rw [last?, h]
  show (init ++ [last]).dropLast.getLast? = init.getLast?
  rw [List.dropLast_concat]

end Token

namespace Node

/-- The document `a`, which is read as `ns`, ends with the bare name of a relation and the document
`b` begins with an arrow. -/
def RunsOn (a b : List Char) (ns : List Node) : Prop :=
  ∃ t ts, Token.last? a = some t ∧ t.kind = .ident ∧
    (Relation.ofName? t.literal).isSome = true ∧
    ns.getLast? = some (.assign ⟨t.literal, t.pos⟩ (.literal (.bool true)) .flag) ∧
    Token.list b = .ok ts ∧ Seam.OpensArrow ts

/-- A document stops at the end of its tokens. -/
theorem rest_of_document {n : Nat} {init : List Token} {last : Token} {ns : List Node} {d : Cursor}
    (hlast : last.kind = .eof) (hinit : ∀ t ∈ init, t.kind ≠ .eof)
    (h : (Rule.document n).Gives (.ofTokens (init ++ [last])) ns d) : d.rest = [last] := by
  have hended : Ended (.ofTokens (init ++ [last])) :=
    ⟨⟨last, List.getLast?_concat, hlast⟩, fun _ _ => trivial⟩
  obtain ⟨hd, hk, hrest, -⟩ := Seam.ends_of_document hended h
  rcases List.suffix_concat_iff.1 hrest with hnil | ⟨front, hfront, hsuffix⟩
  · exact absurd hnil hd.ne_nil
  · cases front with
    | nil => exact hfront
    | cons t ts =>
      have hfirst : d.peekAt 0 = t := by
        unfold Cursor.peekAt
        rw [hfront]
        rfl
      rw [hfirst] at hk
      exact absurd hk (hinit t (hsuffix.mem List.mem_cons_self))

/-- The seam between a document and the end of input that stands further down. -/
def ending (m : Displacement) (last : Token) : Seam :=
  ⟨m, .none, [last], [last.moved m]⟩

/-- The end of a document is a clean seam, since nothing goes on with the end of input. -/
theorem clean_ending {m : Displacement} {last : Token} (hlast : last.kind = .eof) :
    (ending m last).Clean where
  ended := ⟨⟨last, rfl, hlast⟩, fun _ _ => trivial⟩
  left := by
    intro t ht
    obtain rfl := Option.some.inj ht
    exact .inl hlast
  right := ⟨last.moved m, [], rfl, by rw [Token.kind_moved, hlast]; rfl⟩
  elseLeft := by
    show elseAhead ⟨0, [last]⟩ = false
    rw [Seam.elseAhead_cons 0 0, hlast]
    rfl
  elseRight := by
    show elseAhead ⟨0, [last.moved m]⟩ = false
    rw [Seam.elseAhead_cons 0 0, Token.kind_moved, hlast]
    rfl

/-- The end of input goes on with nothing. -/
theorem apart_ending {m : Displacement} {last : Token} (hlast : last.kind = .eof) (t : Token) :
    (ending m last).Apart t := by
  refine ⟨?_, fun _ => rfl⟩
  rintro u hu hname
  obtain rfl := Option.some.inj hu
  rw [Token.isName, Token.kind_moved, hlast] at hname
  cases hname

theorem facing_ending {m : Displacement} {init : List Token} {last : Token}
    (hlast : last.kind = .eof) :
    (ending m last).Facing (init ++ [last]) ((init ++ [last]).map (Token.moved m)) := by
  rw [List.map_append]
  refine Seam.facing_of_forall₂ (List.forall₂_map_right_iff.2 (List.forall₂_same.2 fun t _ => ?_))
    fun t _ => apart_ending hlast t
  show t.moved m = (t.moved m).moved .none
  rw [Token.moved_none]

/-- The tokens of a document that stands further down. -/
theorem gives_document_moved {n : Nat} {init : List Token} {last : Token} {ns : List Node}
    {d : Cursor} (m : Displacement) (hlast : last.kind = .eof)
    (hinit : ∀ t ∈ init, t.kind ≠ .eof) (hlines : ∀ t ∈ init ++ [last], 1 ≤ t.pos.line)
    (h : (Rule.document n).Gives (.ofTokens (init ++ [last])) ns d)
    (hn : (init ++ [last]).length ≤ n) (line : Nat)
    (hop : (Cursor.mk line ((init ++ [last]).map (Token.moved m))).operator? = none)
    (hfirst : ((Cursor.ofTokens (init ++ [last])).peekAt 0).kind.begins = true) (k : Nat)
    (hk : n ≤ k) : ∃ d', (Rule.document k).Gives ⟨line, (init ++ [last]).map (Token.moved m)⟩
      (mapPosAll (Position.moved m) ns) d' := by
  have hnone : (Cursor.ofTokens (init ++ [last])).operator? = none := by
    rw [operator?_ofTokens hlines, Kind.ofKind?_of_stops (Kind.stops_of_begins hfirst), ite_self]
  have hfaces : (ending m last).Faces (.ofTokens (init ++ [last]))
      ⟨line, (init ++ [last]).map (Token.moved m)⟩ := ⟨facing_ending hlast, hnone.trans hop.symm⟩
  -- Behind the seam nothing is left to be read.
  have hmore : ∀ line, (Cursor.mk line (ending m last).right).operator? = none → ∀ k, 1 ≤ k →
      ∃ d', (Rule.document k).Gives ⟨line, (ending m last).right⟩ [] d' := by
    intro line _ k hk
    obtain ⟨k, rfl⟩ : ∃ j, k = j + 1 := ⟨k - 1, by omega⟩
    exact ⟨_, (gives_document _ _ _ _).2 (.inl ⟨hlast, rfl, rfl⟩)⟩
  have hclear : ¬(ending m last).RunsOn (init ++ [last]) ns := by
    rintro ⟨-, -, -, -, -, -, u, v, rest, hright, -⟩
    cases hright
  obtain ⟨ns', d', hgives, hsame⟩ := hfaces.document (clean_ending hlast) hmore h
    (rest_of_document hlast hinit h) hclear hk (by
      show 1 + (init ++ [last]).length ≤ k + 1
      omega)
  have hns : mapPosAll (Position.moved m) ns = ns' := by
    have hid : Position.moved .none = id := funext Position.moved_none
    rw [show mapPosAll (Position.moved m) ns = mapPosAll (Position.moved .none) ns' from hsame,
      hid, mapPosAll_id]
  rw [List.append_nil, ← hns] at hgives
  exact ⟨d', hgives⟩

/-- Whether an `ELSE` is ahead does not depend on where the tokens stand. -/
theorem elseAhead_moved (m : Displacement) (line line' : Nat) (ts : List Token) :
    elseAhead ⟨line, ts.map (Token.moved m)⟩ = elseAhead ⟨line', ts⟩ := by
  induction ts generalizing line line' with
  | nil => rfl
  | cons t ts ih =>
    rw [List.map_cons, Seam.elseAhead_cons line 0, Seam.elseAhead_cons line' 0, Token.kind_moved,
      ih 0 0]

theorem opensArrow_moved {m : Displacement} {ts : List Token} :
    Seam.OpensArrow (ts.map (Token.moved m)) ↔ Seam.OpensArrow ts := by
  match ts with
  | [] | [_] => simp [Seam.OpensArrow]
  | u :: v :: rest => simp [Seam.OpensArrow, Token.isName]

/-- The seam between a document and one that stands further down. -/
def joint (last : Token) (m : Displacement) (ts : List Token) : Seam :=
  ⟨.none, .none, [last], ts.map (Token.moved m)⟩

/-- Nothing in front of a document goes on in it. -/
theorem clean_joint {last : Token} {m : Displacement} {ts : List Token} {n : Nat} {ns : List Node}
    {d : Cursor} (hlast : last.kind = .eof) (hne : ts ≠ [])
    (hfirst : ((Cursor.ofTokens ts).peekAt 0).kind ≠ .comma)
    (h : (Rule.document n).Gives (.ofTokens ts) ns d) : (joint last m ts).Clean where
  ended := ⟨⟨last, rfl, hlast⟩, fun _ _ => trivial⟩
  left := by
    intro t ht
    obtain rfl := Option.some.inj ht
    exact .inl hlast
  right := by
    obtain ⟨t, ts, rfl⟩ := List.exists_cons_of_ne_nil hne
    exact ⟨t.moved m, ts.map (Token.moved m), rfl, begins_of_document h hfirst⟩
  elseLeft := by
    show elseAhead ⟨0, [last]⟩ = false
    rw [Seam.elseAhead_cons 0 0, hlast]
    rfl
  elseRight := (elseAhead_moved m 0 0 ts).trans (elseAhead_of_document h)

/-- The tokens of a document and those of two face each other. -/
theorem faces_joint {init : List Token} {last : Token} {m : Displacement} {ts : List Token}
    (S : (joint last m ts).Clean) (hlines : ∀ t ∈ ts, 1 ≤ t.pos.line)
    (hinit : ∀ t ∈ init, t.pos.line ≤ m.lines) (hcomma : ∀ t ∈ init.getLast?, t.kind ≠ .comma) :
    (joint last m ts).Faces (.ofTokens (init ++ [last]))
      (.ofTokens (init ++ ts.map (Token.moved m))) where
  rests := by
    refine Seam.facing_of_forall₂ (List.forall₂_same.2 fun _ _ => rfl) fun t ht => ⟨?_, ?_⟩
    · intro u hu _
      have hu : u ∈ (ts.map (Token.moved m)).head? := hu
      rw [List.head?_map] at hu
      obtain ⟨x, hx, rfl⟩ := Option.map_eq_some_iff.1 hu
      have h1 := hlines x (List.mem_of_head? hx)
      have h2 := hinit t (List.mem_of_getLast? ht)
      rw [Token.pos_moved, Position.line_moved]
      omega
    · exact fun hk => absurd hk (hcomma t ht)
  operator := by
    cases init with
    | nil =>
      have hk : BinaryOp.ofKind? ((ofTokens (ts.map (Token.moved m))).peekAt 0).kind = none :=
        Kind.ofKind?_of_stops (S.parted.peekAt_right 0)
      refine (S.parted.operator?_left 0).trans (Eq.trans ?_ (operator?_ofTokens fun t ht => ?_).symm)
      · rw [List.nil_append, hk, ite_self]
      · obtain ⟨u, hu, rfl⟩ := List.mem_map.1 ht
        exact Nat.le_add_right_of_le (hlines u hu)
    | cons t us => rfl

/-- The seam sees whether a relation runs on. -/
theorem runsOn_joint_iff {a b : List Char} {init tb : List Token} {last : Token} {m : Displacement}
    {na : List Node} (ha : Token.list a = .ok (init ++ [last])) (hb : Token.list b = .ok tb) :
    (joint last m tb).RunsOn (init ++ [last]) na ↔ RunsOn a b na := by
  have hlast := Token.last?_of_list ha
  constructor
  · rintro ⟨front, t, ht, hi, hr, hl, hopens⟩
    refine ⟨t, tb, hlast.trans ?_, hi, hr, hl, hb, opensArrow_moved.1 hopens⟩
    have hfront : init ++ [last] = (front ++ [t]) ++ [last] := by
      rw [ht, List.append_assoc]
      rfl
    rw [List.append_cancel_right hfront]
    exact List.getLast?_concat
  · rintro ⟨t, ts, ht, hi, hr, hl, hts, hopens⟩
    obtain rfl := Except.ok.inj (hb.symm.trans hts)
    refine ⟨init.dropLast, t, ?_, hi, hr, hl, opensArrow_moved.2 hopens⟩
    rw [← List.dropLast_append_getLast? t (hlast.symm.trans ht), List.append_assoc,
      List.dropLast_concat]
    rfl

/-- **One document behind another.** If the first one ends with a line feed and neither joins the
other at a comma, the statements of both are read from the two together, those of the second moved
down by the lines of the first, unless the name of a relation at the end of the first runs on into
an arrow at the beginning of the second. -/
theorem parse_append_iff {a b file₁ file₂ file : String} {na nb : List Node}
    (ha : parse a file₁ = .ok na) (hb : parse b file₂ = .ok nb) (hline : EndsLine a.toList)
    (hlast : ∀ t ∈ Token.last? a.toList, t.kind ≠ .comma)
    (hfirst : ∀ t ∈ Token.first? b.toList, t.kind ≠ .comma) :
    parse (a ++ b) file = .ok (na ++ mapPosAll (Position.moved (.below a.toList)) nb) ↔
      ¬RunsOn a.toList b.toList na := by
  obtain ⟨ta, ca, hta, hga⟩ := readText_ok_iff.1 ha
  obtain ⟨tb, cb, htb, hgb⟩ := readText_ok_iff.1 hb
  obtain ⟨init, last, hinit, hkind, hinner, -⟩ := Token.ended_of_list hta
  obtain ⟨initb, lastb, hinitb, hkindb, hinnerb, hlinesb⟩ := Token.ended_of_list htb
  obtain ⟨init', last', hinit', hab, habove⟩ := Token.list_append_of_endsLine hta htb hline
  obtain ⟨rfl, rfl⟩ : init = init' ∧ last = last' := by
    simpa using List.append_inj' (hinit.symm.trans hinit') rfl
  subst hinit
  -- The second document begins with something that does not go on.
  have hcomma : ((Cursor.ofTokens tb).peekAt 0).kind ≠ .comma := by
    refine hfirst _ ?_
    rw [Token.first?, htb, hinitb]
    cases initb <;> rfl
  have hbegins := begins_of_document hgb hcomma
  have S : (joint last (.below a.toList) tb).Clean :=
    clean_joint hkind (by rw [hinitb]; exact List.append_ne_nil_of_right_ne_nil _ (by simp))
      hcomma hgb
  have hlastToken := Token.last?_of_list hta
  have hfaces := faces_joint S hlinesb habove (by rwa [← hlastToken])
  have hend := rest_of_document hkind hinner hga
  have hruns := @runsOn_joint_iff _ _ _ _ _ (.below a.toList) na hta htb
  have hlength : 1 ≤ tb.length := by
    rw [hinitb, List.length_append]
    exact Nat.le_add_left 1 _
  -- Both documents have fewer tokens than the two together, so the budget does for each.
  have hbudget :
      budget (init ++ [last]) ≤ budget (init ++ tb.map (Token.moved (.below a.toList))) := by
    simp only [budget, List.length_append, List.length_map, List.length_singleton]
    omega
  constructor
  · intro h hrunsOn
    obtain ⟨ts, c, hts, hgives⟩ := readText_ok_iff.1 h
    rw [String.toList_append, hab] at hts
    obtain rfl := Except.ok.inj hts
    exact hfaces.document_runsOn S hga hend (hruns.2 hrunsOn) hbudget hgives rfl
  · intro hrunsOn
    subst hinitb
    have hmore := fun line hop k hk =>
      gives_document_moved (.below a.toList) hkindb hinnerb hlinesb hgb (by rw [budget]; omega) line
        hop hbegins k hk
    obtain ⟨ns', d', hgives, hsame⟩ := hfaces.document S hmore hga hend (mt hruns.1 hrunsOn)
      hbudget (by
        show budget _ + (init ++ [last]).length ≤ budget _ + 1
        simp only [budget, List.length_append, List.length_map, List.length_singleton]
        omega)
    obtain rfl : na = ns' := by
      have hid : Position.moved .none = id := funext Position.moved_none
      rw [Seam.SameTrees, joint, hid, mapPosAll_id, mapPosAll_id] at hsame
      exact hsame
    refine readText_ok_iff.2 ⟨_, d', ?_, hgives⟩
    rw [String.toList_append]
    exact hab

/-- Behind the bare name of a relation a flag is read and an arrow is not. -/
theorem parse_append_iff_edge :
    (parse "Edge\n" "a" = .ok [.assign ⟨"Edge", ⟨1, 1⟩⟩ (.literal (.bool true)) .flag] ∧
        parse "x\n" "b" = .ok [.assign ⟨"x", ⟨1, 1⟩⟩ (.literal (.bool true)) .flag] ∧
        parse "p -> q\n" "c" = .ok [.arrow none "p" "q" [] ⟨1, 1⟩]) ∧
      parse ("Edge\n" ++ "x\n") "d" =
        .ok ([.assign ⟨"Edge", ⟨1, 1⟩⟩ (.literal (.bool true)) .flag] ++
          mapPosAll (Position.moved (.below "Edge\n".toList))
            [.assign ⟨"x", ⟨1, 1⟩⟩ (.literal (.bool true)) .flag]) ∧
      parse ("Edge\n" ++ "p -> q\n") "d" ≠
        .ok ([.assign ⟨"Edge", ⟨1, 1⟩⟩ (.literal (.bool true)) .flag] ++
          mapPosAll (Position.moved (.below "Edge\n".toList)) [.arrow none "p" "q" [] ⟨1, 1⟩]) := by
  -- The tokens of the three texts, and from them the statements that are read.
  have word : Token.list "Edge\n".toList =
      .ok [⟨.ident, "Edge", ⟨1, 1⟩, none, none⟩, .endOfInput ⟨2, 1⟩] := by
    refine Token.listFrom_step rfl rfl rfl ?_
    exact (Token.listFrom_gap rfl _ _).trans (Token.listFrom_nil _)
  have flag : Token.list "x\n".toList =
      .ok [⟨.ident, "x", ⟨1, 1⟩, none, none⟩, .endOfInput ⟨2, 1⟩] := by
    refine Token.listFrom_step rfl rfl rfl ?_
    exact (Token.listFrom_gap rfl _ _).trans (Token.listFrom_nil _)
  have arrow : Token.list "p -> q\n".toList =
      .ok [⟨.ident, "p", ⟨1, 1⟩, none, none⟩, ⟨.arrow, "->", ⟨1, 3⟩, none, none⟩,
        ⟨.ident, "q", ⟨1, 6⟩, none, none⟩, .endOfInput ⟨2, 1⟩] := by
    refine Token.listFrom_step rfl rfl rfl ?_
    refine Token.listFrom_step rfl rfl rfl ?_
    refine Token.listFrom_step rfl rfl rfl ?_
    exact (Token.listFrom_gap rfl _ _).trans (Token.listFrom_nil _)
  have edge : parse "Edge\n" "a" =
      .ok [.assign ⟨"Edge", ⟨1, 1⟩⟩ (.literal (.bool true)) .flag] :=
    readText_ok_iff.2 ⟨_, ⟨1, [.endOfInput ⟨2, 1⟩]⟩, word, rfl⟩
  have x : parse "x\n" "b" = .ok [.assign ⟨"x", ⟨1, 1⟩⟩ (.literal (.bool true)) .flag] :=
    readText_ok_iff.2 ⟨_, ⟨1, [.endOfInput ⟨2, 1⟩]⟩, flag, rfl⟩
  have pq : parse "p -> q\n" "c" = .ok [.arrow none "p" "q" [] ⟨1, 1⟩] :=
    readText_ok_iff.2 ⟨_, ⟨1, [.endOfInput ⟨2, 1⟩]⟩, arrow, rfl⟩
  have last : ∀ t ∈ Token.last? "Edge\n".toList, t.kind ≠ .comma := by
    rw [Token.last?, word]
    intro t ht
    obtain rfl := Option.some.inj ht
    exact Kind.noConfusion
  refine ⟨⟨edge, x, pq⟩, (parse_append_iff edge x rfl last ?_).2 ?_, fun h =>
    (parse_append_iff edge pq rfl last ?_).1 h ?_⟩
  · rw [Token.first?, flag]
    intro t ht
    obtain rfl := Option.some.inj ht
    exact Kind.noConfusion
  -- Behind `x` there is no arrow, so the condition has nothing against the two texts.
  · rintro ⟨-, ts, -, -, -, -, hts, u, v, rest, rfl, -, hv⟩
    have hboth := Except.ok.inj (flag.symm.trans hts)
    simp only [List.cons.injEq] at hboth
    rw [← hboth.2.1] at hv
    exact Kind.noConfusion hv
  · rw [Token.first?, arrow]
    intro t ht
    obtain rfl := Option.some.inj ht
    exact Kind.noConfusion
  · refine ⟨⟨.ident, "Edge", ⟨1, 1⟩, none, none⟩, _, ?_, rfl, rfl, rfl, arrow, _, _, _, rfl, rfl,
      rfl⟩
    rw [Token.last?, word]
    rfl

end Node

end BlockConfig
