import BlockConfig.Proofs.Grammar.Budget
import BlockConfig.Proofs.Grammar.Omitted
import BlockConfig.Proofs.Lexing.Replacing

/-!
A document with a blank character in place of a comment.

The tokens of a text and those of the text with a blank character in place of one of its comments
face each other, because the tokens behind the comment stay together when they are moved. So the
document is accepted and is the same document up to comments and positions, if no statement of it
goes on behind the comment (`Node.parse_blanked`).
-/

set_option autoImplicit false

namespace BlockConfig

open Cursor Rule Text

/-! ## 1. Quiet comments -/

namespace Commented

variable {o : Commented}

/-- Targets that are found behind the gap are found in front of it already, unless they go on with
what stands behind it. -/
theorem targetList?_of_left {us : List Token}
    (hleft : ∀ t ∈ o.left.head?, t.kind ≠ .ident ∧ t.kind ≠ .comma ∧ t.kind ≠ .assign)
    (h : (targetList? (us ++ o.left)).isSome = true) :
    (targetList? (us ++ o.gap)).isSome = true := by
  have first : ∀ {t : Token} {ts : List Token}, o.left = t :: ts →
      t.kind ≠ .ident ∧ t.kind ≠ .comma ∧ t.kind ≠ .assign := by
    intro t ts ht
    exact hleft t (by rw [ht]; rfl)
  induction hn : us.length using Nat.strong_induction_on generalizing us with
  | _ n ih =>
    rcases us with _ | ⟨t, _ | ⟨u, us⟩⟩
    · rcases ht : o.left with _ | ⟨t, _ | ⟨u, ts⟩⟩
      · rw [ht] at h
        cases h
      · rw [ht] at h
        cases h
      · rw [ht] at h
        simp [targetList?, (first ht).1] at h
    · rcases ht : o.left with _ | ⟨u, ts⟩
      · rw [ht] at h
        cases h
      · rw [ht] at h
        simp [targetList?, (first ht).2.1, (first ht).2.2] at h
    · simp only [List.cons_append, targetList?] at h ⊢
      by_cases hi : t.kind = .ident
      · by_cases hc : u.kind = .comma
        · rw [if_pos hi, if_pos hc, Option.isSome_map] at h ⊢
          rw [List.length_cons, List.length_cons] at hn
          exact ih us.length (by omega) h rfl
        · rw [if_pos hi, if_neg hc] at h ⊢
          split at h
          next ha => rw [if_pos ha]; rfl
          next => cases h
      · rw [if_neg hi] at h
        cases h

/-- A flag is no first of several targets. -/
theorem targetList?_of_flag {c d : Cursor} {target : Target} {value : Node} {k : Nat}
    (h : (Rule.statement k).Gives c (.assign target value .flag) d) :
    targetList? c.rest = none := by
  by_contra hsome
  obtain ⟨⟨targets, sign, rest⟩, ht⟩ := Option.ne_none_iff_exists'.1 hsome
  -- A list of targets begins with a name and goes on with an equals sign or a comma. These two tokens
  -- tell every other form from a flag, and for a flag the rule has looked for targets before.
  have first : (c.peekAt 0).kind = .ident := by
    obtain ⟨line, ts⟩ := c
    rcases ts with _ | ⟨t, _ | ⟨u, us⟩⟩
    · cases ht
    · cases ht
    · by_contra hi
      have hi : t.kind ≠ .ident := hi
      simp [targetList?, hi] at ht
  have second : (c.peekAt 1).kind = .assign ∨ (c.peekAt 1).kind = .comma :=
    or_iff_not_imp_left.2 (comma_of_targetList? ht)
  cases k with
  | zero => exact absurd h (not_gives_exhausted _ _ _)
  | succ k =>
    generalize hnode : Node.assign target value .flag = node at h
    cases (gives_statement _ _ _ _).1 h with
    | comment hk | directive hk | control hk => exact absurd (hk.symm.trans first) (by decide)
    | arrow _ _ hr =>
      cases k with
      | zero => exact absurd hr (not_gives_exhausted _ _ _)
      | succ k =>
        obtain ⟨_, -, -, -, -, _, -, rfl⟩ := (gives_arrow _ _ _ _ _).1 hr
        cases hnode
    | named _ _ hb =>
      cases k with
      | zero => exact absurd hb (not_gives_exhausted _ _ _)
      | succ k =>
        cases (gives_blockOrAssignment _ _ _ _).1 hb with
        | block hn => rcases second with h | h <;> exact absurd (hn.symm.trans h) (by decide)
        | labelled hn => rcases second with h | h <;> simp [Token.isName, h] at hn
        | assign =>
          have hstyle := (Node.assign.inj hnode).2.2
          split at hstyle <;> cases hstyle
        | assignEach | destructure => cases hnode
        | flag _ _ _ _ hnone => exact hsome hnone

/-- **A comment is quiet** if neither a name, nor a comma, nor a sign that goes on stands behind
it. -/
theorem quiet_of_head (h : ∀ t ∈ o.left.head?, t.isName = false ∧ t.kind ≠ .comma ∧
    t.kind ≠ .assign ∧ BinaryOp.ofKind? t.kind = none) : o.Quiet := by
  have ahead : ∀ line, ((Cursor.mk line o.left).peekAt 0).isName = false ∧
      ((Cursor.mk line o.left).peekAt 0).kind ≠ .comma ∧
      BinaryOp.ofKind? ((Cursor.mk line o.left).peekAt 0).kind = none := by
    intro line
    cases hleft : o.left with
    | nil => exact ⟨rfl, Kind.noConfusion, rfl⟩
    | cons t ts =>
      obtain ⟨hn, hc, -, ho⟩ := h t (by rw [hleft]; rfl)
      exact ⟨hn, hc, ho⟩
  have word : ∀ {t : Token}, t.isName = false → t.kind ≠ .ident := by
    intro t hn hi
    simp [Token.isName, hi] at hn
  intro c d n k _ hs hgoes
  cases hgoes with
  | operator _ _ ho =>
    obtain ⟨hn, -, hop⟩ := ahead d.line
    unfold Cursor.operator? at ho
    rw [if_neg (word hn), hop] at ho
    cases ho
  | value _ hk => exact (ahead d.line).2.1 hk
  | label _ hn => exact Bool.noConfusion (hn.symm.trans (ahead d.line).1)
  | relation _ _ hopens =>
    obtain ⟨u, v, rest, hleft, hu, -⟩ := hopens
    exact Bool.noConfusion (hu.symm.trans (h u (by rw [hleft]; rfl)).1)
  | targets hc ht =>
    have hsome :=
      targetList?_of_left (fun t ht => ⟨word (h t ht).1, (h t ht).2.1, (h t ht).2.2.1⟩) ht
    rw [← hc, targetList?_of_flag hs] at hsome
    cases hsome

end Commented

/-! ## 2. Moving what stands behind the comment -/

namespace Omission

open Commented

variable {o : Omission}

/-- What stands behind the comment is the same on both sides, in two places. -/
theorem facing_behind {m m' : Displacement} {base : List Token}
    (hend : ∃ init last, base = init ++ [last] ∧ last.kind = .eof)
    (hlength : base.length ≤ o.left.length) :
    o.Facing (base.map (Token.moved m)) (base.map (Token.moved m')) := by
  have twin : ∀ t : Token, (t.moved m).Twin (t.moved m') := fun t => ⟨rfl, rfl, rfl, rfl⟩
  induction base with
  | nil =>
    obtain ⟨init, last, h, -⟩ := hend
    exact absurd h.symm (by simp)
  | cons t us ih =>
    obtain ⟨init, last, h, hk⟩ := hend
    cases us with
    | nil =>
      obtain rfl : t = last := by
        have hlast := congrArg List.getLast? h
        simpa using hlast
      exact .eof (twin t) hk
    | cons u us =>
      obtain ⟨init, rfl⟩ : ∃ init', init = t :: init' := by
        cases init with
        | nil => simp at h
        | cons x xs => exact ⟨xs, by rw [(List.cons.inj h).1]⟩
      rw [List.length_cons] at hlength
      have hne : (u :: us).map (Token.moved m) ≠ o.gap := by
        intro he
        have hgap := congrArg List.length he
        simp only [gap, List.length_map, List.length_cons] at hgap hlength
        omega
      refine .cons ?_ (twin t) ?_ (ih ⟨init, last, (List.cons.inj h).2, hk⟩ (by omega))
      · rw [List.length_map]
        omega
      · show o.Level _ ((u :: us).map (Token.moved m)) _ ((u :: us).map (Token.moved m'))
        rw [Level, o.ahead_of_ne hne]
        rintro _ ⟨⟩ _ ⟨⟩ -
        simp only [Token.pos_moved, Position.line_moved]
        omega

/-- **Moving what stands behind the comment** makes lists that face each other, unless something
leaves the line of a token in front of the comment. -/
theorem facing_of_moved {m m' : Displacement} {base : List Token}
    (hleft : o.left = base.map (Token.moved m)) (hright : o.right = base.map (Token.moved m'))
    (hend : ∃ init last, base = init ++ [last] ∧ last.kind = .eof)
    (hlines : ∀ t ∈ o.front, ∀ u ∈ base.head?, u.kind ≠ .eof →
      ((u.moved m).pos.line = t.pos.line ↔ (u.moved m').pos.line = t.pos.line)) :
    o.Facing o.tokens (o.front ++ o.right) := by
  have hbehind : o.Facing o.left o.right := by
    rw [hleft, hright]
    exact facing_behind hend (by rw [hleft, List.length_map])
  rw [tokens, ← gap]
  generalize hfront : o.front = front at hlines
  clear hfront
  induction front with
  | nil => exact .omitted hbehind
  | cons t us ih =>
    have hrest := ih fun t ht => hlines t (List.mem_cons_of_mem _ ht)
    have hlong : (us ++ o.gap).length ≠ o.left.length := by
      rw [List.length_append, gap, List.length_cons]
      omega
    refine .cons hlong ⟨rfl, rfl, rfl, rfl⟩ ?_ hrest
    cases us with
    | nil =>
      -- The last token in front of the comment sees what is behind it.
      show o.Level t.pos.line o.gap t.pos.line o.right
      rw [Level, ahead_gap, hleft, hright]
      intro u hu u' hu' hne
      rw [List.head?_map] at hu hu'
      obtain ⟨v, hv, rfl⟩ := Option.map_eq_some_iff.1 hu
      obtain ⟨v', hv', rfl⟩ := Option.map_eq_some_iff.1 hu'
      obtain rfl := Option.some.inj (hv.symm.trans hv')
      exact hlines t List.mem_cons_self v hv hne
    | cons u us =>
      have hne : u :: us ++ o.gap ≠ o.gap := by
        intro he
        have hlength := congrArg List.length he
        rw [List.length_append, List.length_cons] at hlength
        omega
      show o.Level t.pos.line (u :: us ++ o.gap) t.pos.line (u :: us ++ o.right)
      rw [Level, o.ahead_of_ne hne]
      rintro _ ⟨⟩ _ ⟨⟩ -
      exact Iff.rfl

end Omission

/-! ## 3. Documents -/

/-- The comment of a token list stands in a span of a text, on one line if a mark of its own closes
it. -/
structure Commented.StandsIn (o : Commented) (source : String) (s : Span) : Prop where
  tokens : Token.list source.toList = .ok o.tokens
  read : o.comment.ReadFrom source.toList s
  line : ['/', '*'] <+: s.text source.toList → '\n' ∉ s.text source.toList

/-- Every comment of a text stands in a span of it. Only one with a mark of its own at its end can go
over several lines. -/
theorem Commented.exists_standsIn {o : Commented} {source : String}
    (h : Token.list source.toList = .ok o.tokens) :
    ∃ s, o.comment.ReadFrom source.toList s ∧
      ((['/', '*'] <+: s.text source.toList → '\n' ∉ s.text source.toList) →
        o.StandsIn source s) := by
  obtain ⟨init, spans, hinit, covers⟩ := @Token.covers_of_listFrom [] _ _ h
  have hmem : o.comment ∈ init := by
    have hmem : o.comment ∈ o.tokens := by simp [Commented.tokens]
    rw [hinit] at hmem
    rcases List.mem_append.1 hmem with hmem | hmem
    · exact hmem
    · have hkind := o.isComment
      rw [List.mem_singleton.1 hmem] at hkind
      cases hkind
  obtain ⟨s, -, read⟩ := covers.exists_readFrom hmem
  exact ⟨s, read, fun line => ⟨h, read, line⟩⟩

/-- **A document is accepted with a blank character in place of a comment,** and it is the same
document up to comments and positions, if no statement goes on behind the comment and no heredoc
begins in front of it. -/
theorem Node.parse_blanked {source file : String} {ns : List Node} {o : Commented} {s : Span}
    (h : parse source file = .ok ns) (ho : o.StandsIn source s)
    (hopen : ¬s.OpensHeredoc source.toList) (quiet : o.Quiet) :
    ∃ ns', parse (String.ofList (s.blanked source.toList)) file = .ok ns' ∧
      Omission.SameStatements ns ns' := by
  obtain ⟨ts, d, hts, hgives⟩ := readText_ok_iff.1 h
  obtain rfl := Except.ok.inj (ho.tokens.symm.trans hts)
  obtain ⟨base, m, m', hleft, hblanked, hend, hlines⟩ :=
    Token.list_blanked ho.tokens o.isComment ho.read ho.line hopen
  let omission : Omission := ⟨o, base.map (Token.moved m')⟩
  have hfacing : omission.Facing o.tokens (o.front ++ base.map (Token.moved m')) :=
    Omission.facing_of_moved hleft rfl hend hlines
  obtain ⟨ns', d', hgives', hsame⟩ := Omission.document_of_facing quiet hfacing hgives
  have hended : (ofTokens (o.front ++ base.map (Token.moved m'))).Ended := by
    obtain ⟨init, last, hinit, hlast, -⟩ := Token.ended_of_list hblanked
    rw [hinit]
    exact ⟨⟨last, by simp [ofTokens], hlast⟩, fun _ _ => trivial⟩
  refine ⟨ns', readText_ok_iff.2 ⟨_, d', ?_, document_of_gives hended hgives'⟩, hsame⟩
  rw [String.toList_ofList]
  exact hblanked

end BlockConfig
