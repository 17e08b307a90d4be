import BlockConfig.Proofs.Grammar.Budget
import BlockConfig.Proofs.Grammar.ReadingStatements

/-!
What stands in braces, one thing after another.

Which statement stands in front of a separator, and what is left behind it, does not depend on
whether anything can be read of the rest (`Rule.BeginsWith`). For a flag it is enough to know that
no list of targets begins with it. For an assignment its expression is carried over from where it
stands alone: the seam is the separator behind it, where no expression goes on.

So a list of statements in braces can be put together from its end (`Rule.ReadsTo.cons`), and a list
that has been read can be taken apart from its beginning (`Rule.BeginsWith.bodyItems`), because what
a rule reads does not depend on its budget.
-/

set_option autoImplicit false

namespace BlockConfig

open Cursor Rule Node

/-- The tokens begin with one that parts what stands in braces or closes it. -/
def Separates (us : List Token) : Prop :=
  ∃ m rest, us = m :: rest ∧ (m.kind = .comma ∨ m.kind = .semicolon ∨ m.kind = .rbrace)

namespace Separates

variable {us : List Token} (h : Separates us)
include h

theorem ne_nil : us ≠ [] := by
  obtain ⟨m, rest, rfl, -⟩ := h
  exact List.cons_ne_nil _ _

theorem isName {u : Token} (hu : u ∈ us.head?) : u.isName = false := by
  obtain ⟨m, rest, rfl, hm⟩ := h
  obtain rfl := Option.some.inj hu
  rcases hm with hm | hm | hm <;> simp [Token.isName, hm]

/-- What separates begins no targets. -/
theorem targetList?_eq_none : targetList? us = none := by
  obtain ⟨m, rest, rfl, hm⟩ := h
  have hne : m.kind ≠ .ident := by rcases hm with hm | hm | hm <;> simp [hm]
  cases rest with
  | nil => rfl
  | cons u rest => simp [targetList?, hne]

end Separates

namespace Seam

/-! ## 1. An expression in front of a separator -/

/-- The seam behind an expression that stands further on. -/
def following (m : Displacement) (last : Token) (right : List Token) : Seam :=
  ⟨m, .none, [last], right⟩

variable {m : Displacement} {last : Token} {right : List Token}

/-- A separator or a brace parts an expression in front of it from what follows. -/
theorem parted_following (hlast : last.kind = .eof) (hright : Separates right) :
    (following m last right).Parted where
  ended := ⟨⟨last, rfl, hlast⟩, fun _ _ => trivial⟩
  left := by
    rintro t ⟨⟩
    exact .inl hlast
  right := by
    obtain ⟨u, rest, rfl, hu⟩ := hright
    exact ⟨u, rest, rfl, by rcases hu with hu | hu | hu <;> rw [hu] <;> rfl⟩
  elseLeft := by
    show elseAhead ⟨0, [last]⟩ = false
    rw [elseAhead_cons 0 0, hlast]
    rfl
  elseRight := by
    obtain ⟨u, rest, rfl, hu⟩ := hright
    show elseAhead ⟨0, u :: rest⟩ = false
    rw [elseAhead_cons 0 0]
    rcases hu with hu | hu | hu <;> rw [hu] <;> rfl

/-- No token stands too close to it. -/
theorem apart_following (hright : Separates right) (t : Token) :
    (following m last right).Apart t where
  line := fun u hu hname => absurd hname (by simp [hright.isName hu])
  comma := fun _ => hright.targetList?_eq_none

/-- An expression that was read alone faces the one in a larger text: its end of input stands where the
other tokens follow. -/
theorem facing_following (A : ∀ t, (following m last right).Apart t) (init : List Token) :
    (following m last right).Facing (init ++ [last]) (init.map (Token.moved m) ++ right) := by
  refine facing_of_forall₂ (List.forall₂_map_right_iff.2 (List.forall₂_same.2 fun t _ => ?_))
    fun t _ => A t
  show t.moved m = (t.moved m).moved .none
  rw [Token.moved_none]

/-- In front of the seam facing lists consist of the same tokens. -/
theorem Facing.exists_front {s : Seam} {front us' : List Token}
    (h : s.Facing (front ++ s.left) us') :
    ∃ front', us' = front' ++ s.right ∧ List.Forall₂ s.Alike front front' := by
  induction front generalizing us' with
  | nil => exact ⟨[], (h.eq_of_length (Nat.le_refl _)).2, .nil⟩
  | cons t front ih =>
    have room : s.left.length ≤ (front ++ s.left).length := by simp
    obtain ⟨t', vs', rfl, halike, -, hrest⟩ := h.uncons_of_length room
    obtain ⟨front', rfl, hfront⟩ := ih hrest
    exact ⟨t' :: front', rfl, .cons halike hfront⟩

end Seam

namespace Rule

section Line

variable {t u : Token} {us : List Token} {line line' : Nat} {n : Nat} {node : Node} {d : Cursor}

/-! The line of the token read last matters to an operator only, and no expression begins with
one. -/

/-- On which line something begins does not matter for what begins with a sign. This and the lemmas below
say so along the rules for expressions, of which none looks at the line before its first token. -/
theorem directive_of_line (h : (directive n).Gives ⟨line, t :: u :: us⟩ node d) :
    (directive n).Gives ⟨line', t :: u :: us⟩ node d := by
  cases n with
  | zero => exact absurd h (not_gives_exhausted _ _ _)
  | succ n =>
    obtain ⟨hsign, hname, h⟩ := (gives_directive _ _ _ _).1 h
    refine (gives_directive _ _ _ _).2 ⟨hsign, hname, ?_⟩
    cases h with
    | inclusion hn ht => exact .inclusion hn ht
    | exec hn hp ha => exact .exec hn hp ha
    | pipeline hn hb hi => exact .pipeline hn hb hi

/-- Nor for an operand, as long as there is more than one token. -/
theorem primary_of_line (h : (primary n).Gives ⟨line, t :: u :: us⟩ node d) :
    (primary n).Gives ⟨line', t :: u :: us⟩ node d := by
  cases n with
  | zero => exact absurd h (not_gives_exhausted _ _ _)
  | succ n =>
    refine (gives_primary _ _ _ _).2 ?_
    cases (gives_primary _ _ _ _).1 h with
    | number hk hv => exact .number hk hv
    | str hk => exact .str hk
    | heredoc hk => exact .heredoc hk
    | bool hk => exact .bool hk
    | null hk hn => exact .null hk hn
    | call hk hn hp hl ha => exact .call hk hn hp hl ha
    | ident hk hn hp => exact .ident hk hn hp
    | envRef hk => exact .envRef hk
    | group hk hi hp => exact .group hk hi hp
    | list hk hi => exact .list hk hi
    | directive hk hd => exact .directive hk (directive_of_line hd)
    | entries hk hb =>
      refine .entries hk ?_
      cases n with
      | zero => exact absurd hb (not_gives_exhausted _ _ _)
      | succ n =>
        obtain ⟨hbrace, hi⟩ := (gives_body _ _ _ _ _).1 hb
        exact (gives_body _ _ _ _ _).2 ⟨hbrace, hi⟩

/-- Nor with operators in front. -/
theorem unary_of_line (h : (unary n).Gives ⟨line, t :: u :: us⟩ node d) :
    (unary n).Gives ⟨line', t :: u :: us⟩ node d := by
  cases n with
  | zero => exact absurd h (not_gives_exhausted _ _ _)
  | succ n =>
    refine (gives_unary _ _ _ _).2 ?_
    rcases (gives_unary _ _ _ _).1 h with h | ⟨hno, left, e, hp, hm⟩
    · exact .inl h
    · exact .inr ⟨hno, left, e, primary_of_line hp, hm⟩

/-- Nor for expressions as a whole. -/
theorem expression_of_line (h : (expression n).Gives ⟨line, t :: u :: us⟩ node d) :
    (expression n).Gives ⟨line', t :: u :: us⟩ node d := by
  rcases n with _ | _ | n
  · exact absurd h (not_gives_exhausted _ _ _)
  · obtain ⟨condition, e, hb, -⟩ := (gives_expression _ _ _ _).1 h
    exact absurd hb (not_gives_exhausted _ _ _)
  · obtain ⟨condition, e, hb, hrest⟩ := (gives_expression _ _ _ _).1 h
    obtain ⟨left, e', hu, hl⟩ := (gives_binary _ _ _ _ _).1 hb
    exact (gives_expression _ _ _ _).2 ⟨condition, e,
      (gives_binary _ _ _ _ _).2 ⟨left, e', unary_of_line hu, hl⟩, hrest⟩

end Line

/-- An expression is read as it is read alone, moved to where it stands, if nothing in it can go on
behind it. -/
theorem expression_of_parted {n : Nat} {init front right : List Token} {last : Token}
    {node : Node} {d : Cursor} {m : Displacement}
    (h : (expression n).Gives (.ofTokens (init ++ [last])) node d) (hd : d.rest = front ++ [last])
    (S : (Seam.following m last right).Parted) (A : ∀ t, (Seam.following m last right).Apart t) :
    ∃ line, (expression n).Gives
      ⟨1 + m.lines, init.map (Token.moved m) ++ right⟩ (node.mapPos (Position.moved m))
      ⟨line, front.map (Token.moved m) ++ right⟩ := by
  have hrests : (Seam.following m last right).Facing (init ++ [last])
      (init.map (Token.moved m) ++ right) := Seam.facing_following A init
  -- The expression is not empty, so its first token may stand behind any line.
  have hended : Cursor.Ended (.ofTokens (init ++ [last])) := hrests.ended S 0
  obtain ⟨t, us, rfl⟩ : ∃ t us, init = t :: us := by
    refine List.exists_cons_of_ne_nil ?_
    rintro rfl
    have hl := ((forward n).expression hended h).shorter
    rw [hd] at hl
    simp [Cursor.ofTokens] at hl
  obtain ⟨u, vs, huvs⟩ : ∃ u vs, us ++ [last] = u :: vs :=
    List.exists_cons_of_ne_nil (by simp)
  have h₁ : (expression n).Gives ⟨1, t :: us ++ [last]⟩ node d := by
    rw [List.cons_append, huvs]
    refine @expression_of_line t u vs 0 1 n node d ?_
    rw [← huvs]
    exact h
  have hfaces : (Seam.following m last right).Faces ⟨1, t :: us ++ [last]⟩
      ⟨1 + m.lines, (t :: us).map (Token.moved m) ++ right⟩ := by
    have halike : (Seam.following m last right).Alike (.endOfInput .start)
        ((Token.endOfInput .start).moved m) := (Token.moved_none _).symm
    exact ⟨hrests, Seam.operator?_of_facing S halike
      (fun _ => A _) hrests⟩
  obtain ⟨node', d', h', hnode, hd'⟩ := (Seam.transferred S n).expression hfaces h₁
    (by rw [hd]; simp [Seam.following]) n (Nat.le_refl n)
  obtain ⟨line, rest⟩ := d'
  have hid : Position.moved .none = id := funext Position.moved_none
  obtain rfl : node.mapPos (Position.moved m) = node' := by
    rw [Seam.SameTree, Seam.following, hid, mapPos_id] at hnode
    exact hnode
  have hback := hd'.rests
  rw [hd] at hback
  obtain ⟨front', rfl, hfront⟩ := Seam.Facing.exists_front (s := Seam.following m last right) hback
  have heq : List.Forall₂ (· = ·) (front.map (Token.moved m)) front' :=
    List.forall₂_map_left_iff.2 (hfront.imp fun t t' halike => halike.trans (Token.moved_none t'))
  rw [List.forall₂_eq_eq_eq] at heq
  subst heq
  exact ⟨line, h'⟩

/-- **An expression is read in front of a separator as it is read alone,** moved to where it
stands. -/
theorem expression_of_following {n : Nat} {init front right : List Token} {last : Token}
    {node : Node} {d : Cursor} (h : (expression n).Gives (.ofTokens (init ++ [last])) node d)
    (hlast : last.kind = .eof) (hd : d.rest = front ++ [last]) (hright : Separates right)
    (m : Displacement) : ∃ line, (expression n).Gives
      ⟨1 + m.lines, init.map (Token.moved m) ++ right⟩ (node.mapPos (Position.moved m))
      ⟨line, front.map (Token.moved m) ++ right⟩ :=
  expression_of_parted h hd (Seam.parted_following hlast hright) (Seam.apart_following hright)

/-! ## 2. The first statements -/

/-- Statements are read at the beginning of `us`, and `vs` is left. -/
inductive BeginsWith : List Token → List Node → List Token → Prop
  | nil {us : List Token} : BeginsWith us [] us
  | cons {us vs ws : List Token} {node : Node} {nodes : List Node}
      (head : ∀ t ∈ us.head?, t.kind = .ident ∨ t.kind = .comment)
      (first : ∀ line, ∃ n line', (statement n).Gives ⟨line, us⟩ node ⟨line', vs⟩)
      (others : BeginsWith vs nodes ws) : BeginsWith us (node :: nodes) ws

variable {t u last : Token} {us vs : List Token} {node : Node} {ns nodes : List Node}

/-- Comments are statements. -/
theorem beginsWith_comments (hus : us ≠ []) {front : List Token}
    (hfront : ∀ t ∈ front, t.kind = .comment) :
    BeginsWith (front ++ us) (front.map fun t => .comment t.literal) us := by
  induction front with
  | nil => exact .nil
  | cons t front ih =>
    obtain ⟨ht, hfront⟩ := List.forall_mem_cons.1 hfront
    refine .cons ?_ (fun line => ?_) (ih hfront)
    · rintro _ ⟨⟩
      exact .inr ht
    · have hgives := (gives_statement 0 ⟨line, t :: (front ++ us)⟩ _ _).2 (.comment ht)
      rw [skip_cons (List.append_ne_nil_of_right_ne_nil front hus)] at hgives
      exact ⟨1, _, hgives⟩

/-- A name in front of a separator is a flag, unless a list of targets begins with it. -/
theorem beginsWith_flag (ht : t.kind = .ident) (hus : Separates us)
    (htargets : targetList? (t :: us) = none) :
    BeginsWith (t :: us) [.assign ⟨t.literal, t.pos⟩ (.literal (.bool true)) .flag] us := by
  obtain ⟨u, vs, rfl, hu⟩ := hus
  have hno : u.kind ≠ .arrow ∧ u.kind ≠ .lbrace ∧ u.kind ≠ .assign ∧ u.kind ≠ .colon := by
    rcases hu with hu | hu | hu <;> simp [hu]
  have hname : ¬u.isName = true := by rcases hu with hu | hu | hu <;> simp [Token.isName, hu]
  refine .cons ?_ (fun line => ⟨2, t.pos.line, ?_⟩) .nil
  · rintro _ ⟨⟩
    exact .inl ht
  · refine (gives_statement _ _ _ _).2 (.named ?_ ?_ ((gives_blockOrAssignment _ _ _ _).2
      (.flag ht hno.2.1 (fun h => hname h.1) (fun h => h.elim hno.2.2.1 hno.2.2.2) htargets)))
    · simp [Token.isName, ht]
    · exact arrowAhead?_eq_none hno.1 fun h => absurd h hname

/-- An assignment in front of a separator is read with the expression that is read of its tokens
alone, and with the comments behind it. -/
theorem beginsWith_assign {sign eof : Token} {n : Nat} {init front : List Token} {value : Node}
    {d : Cursor} {m : Displacement} (ht : t.kind = .ident) (hsign : sign.kind = .assign)
    (hline : sign.pos.line = 1 + m.lines) (hus : Separates us)
    (hv : (expression n).Gives (.ofTokens (init ++ [eof])) value d) (heof : eof.kind = .eof)
    (hd : d.rest = front ++ [eof]) (hfront : ∀ t ∈ front, t.kind = .comment) :
    BeginsWith (t :: sign :: (init.map (Token.moved m) ++ us))
      (.assign ⟨t.literal, t.pos⟩ (value.mapPos (Position.moved m)) .equals ::
        front.map fun t => .comment t.literal) us := by
  have hne : init.map (Token.moved m) ++ us ≠ [] := List.append_ne_nil_of_right_ne_nil _ hus.ne_nil
  obtain ⟨line', hvalue⟩ := expression_of_following hv heof hd hus m
  have hcomments := beginsWith_comments hus.ne_nil
    (show ∀ t ∈ front.map (Token.moved m), t.kind = .comment by simpa using hfront)
  rw [List.map_map] at hcomments
  refine .cons ?_ (fun line => ⟨n + 2, line', ?_⟩) hcomments
  · rintro _ ⟨⟩
    exact .inl ht
  · refine (gives_statement _ _ _ _).2 (.named ?_ ?_ ((gives_blockOrAssignment _ _ _ _).2 ?_))
    · simp [Token.isName, ht]
    · exact arrowAhead?_eq_none (by simp [hsign]) (by simp [Token.isName, hsign])
    · have hskip : (Cursor.mk line (t :: sign :: (init.map (Token.moved m) ++ us))).skip.skip =
          ⟨1 + m.lines, init.map (Token.moved m) ++ us⟩ := by
        rw [skip_cons_cons, skip_cons hne, hline]
      rw [← hskip] at hvalue
      have hnext : ((Cursor.mk line (t :: sign :: (init.map (Token.moved m) ++ us))).peekAt
          1).kind = .assign := hsign
      simpa [hsign] using Named.assign (.inl hnext) hvalue

/-- A name in front of a comma is an assignment to several targets if a list of them begins with
it. -/
theorem several_of_targetList? {n line : Nat} {e : Cursor} (ht : t.kind = .ident)
    (hu : u.kind = .comma) (h : (statement n).Gives ⟨line, t :: u :: us⟩ node e)
    (htargets : targetList? (t :: u :: us) ≠ none) :
    (∃ pairs, node = .assignEach pairs) ∨ ∃ targets source, node = .destructure targets source := by
  have hname : ¬u.isName = true := by simp [Token.isName, hu]
  have harrow : arrowAhead? ⟨line, t :: u :: us⟩ = none :=
    arrowAhead?_eq_none (by simp [hu]) fun h => absurd h hname
  obtain _ | n := n
  · exact absurd h (not_gives_exhausted _ _ _)
  cases (gives_statement _ _ _ _).1 h with
  | comment hk | directive hk | control hk => exact absurd (ht.symm.trans hk) (by decide)
  | arrow _ ha => exact absurd (harrow.symm.trans ha) (by simp)
  | named _ _ hb =>
    obtain _ | n := n
    · exact absurd hb (not_gives_exhausted _ _ _)
    cases (gives_blockOrAssignment _ _ _ _).1 hb with
    | block hn => exact absurd (hu.symm.trans hn) (by decide)
    | labelled hn => exact absurd hn hname
    | assign hn =>
      rcases hn with hn | hn <;> exact absurd (hu.symm.trans hn) (by decide)
    | assignEach => exact .inl ⟨_, rfl⟩
    | destructure => exact .inr ⟨_, _, rfl⟩
    | flag _ _ _ _ hnone => exact absurd hnone htargets

/-! ## 3. Statements up to the brace -/

/-- Tokens in front do not change the end. -/
theorem ended_append {line line' : Nat} (front : List Token) (h : Cursor.Ended ⟨line, us⟩) :
    Cursor.Ended ⟨line', front ++ us⟩ := by
  obtain ⟨⟨last, hlast, heof⟩, -⟩ := h
  refine ⟨⟨last, ?_, heof⟩, fun _ _ => trivial⟩
  show last ∈ (front ++ us).getLast?
  rw [List.getLast?_append, Option.mem_def.1 hlast]
  rfl

/-- What a rule reads does not depend on its budget. -/
theorem statement_unique {m n : Nat} {c d e : Cursor} {a b : Node} (hc : c.Ended)
    (h : (statement m).Gives c a d) (h' : (statement n).Gives c b e) : a = b ∧ d = e := by
  have h₁ := (afforded m).statement hc h _ (Nat.le_refl _)
  have h₂ := (afforded n).statement hc h' _ (Nat.le_refl _)
  exact Prod.mk.inj (Except.ok.inj (h₁.symm.trans h₂))

/-- The statements that are read are the first one and those that are read behind it. -/
theorem bodyItems_iff {m line : Nat} {context : String} {d e : Cursor}
    (hc : Cursor.Ended ⟨line, us⟩) (hhead : ∀ t ∈ us.head?, t.kind = .ident ∨ t.kind = .comment)
    (hs : (statement m).Gives ⟨line, us⟩ node e) :
    (∃ n, (bodyItems n context).Gives ⟨line, us⟩ ns d) ↔
      ∃ others, ns = node :: others ∧ ∃ n, (bodyItems n context).Gives e others d := by
  obtain ⟨t, vs, rfl⟩ : ∃ t vs, us = t :: vs := List.exists_cons_of_ne_nil hc.ne_nil
  have hk := hhead t rfl
  have hskip : Cursor.skipSeparators ⟨line, t :: vs⟩ = ⟨line, t :: vs⟩ :=
    skipSeparators_of_not (by rcases hk with hk | hk <;> simp [hk])
  have hreads := (forward m).statement hc hs
  constructor
  · rintro ⟨n, h⟩
    cases n with
    | zero => exact absurd h (not_gives_exhausted _ _ _)
    | succ n =>
      rw [gives_bodyItems, hskip] at h
      rcases h with ⟨hbrace, -⟩ | ⟨-, -, first, e', others, hs', ho, rfl⟩
      · rcases hk with hk | hk <;> exact absurd (hk.symm.trans hbrace) (by decide)
      · obtain ⟨rfl, rfl⟩ := statement_unique hc hs hs'
        exact ⟨others, rfl, n, ho⟩
  · rintro ⟨others, rfl, n, ho⟩
    have hshorter := hreads.shorter
    refine ⟨10 * (t :: vs).length + 3, (gives_bodyItems _ _ _ _ _).2 (.inr ?_)⟩
    rw [hskip]
    refine ⟨?_, ?_, node, e, others, (afforded m).statement hc hs _ (Nat.le_refl _),
      (afforded n).bodyItems hreads.ended ho _ (by dsimp only at hshorter; omega), rfl⟩
    · rcases hk with hk | hk <;> simp [hk]
    · rcases hk with hk | hk <;> simp [hk]

/-- A separator in front of statements is skipped. -/
theorem bodyItems_separator {n line : Nat} {context : String} {d : Cursor} (hus : us ≠ [])
    (ht : t.kind = .comma ∨ t.kind = .semicolon) :
    (bodyItems n context).Gives ⟨line, t :: us⟩ ns d ↔
      (bodyItems n context).Gives ⟨t.pos.line, us⟩ ns d := by
  obtain ⟨u, vs, rfl⟩ := List.exists_cons_of_ne_nil hus
  have hskip : Cursor.skipSeparators ⟨line, t :: u :: vs⟩ =
      Cursor.skipSeparators ⟨t.pos.line, u :: vs⟩ := by
    rcases ht with ht | ht <;> simp [Cursor.skipSeparators, skipKinds, ht]
  cases n with
  | zero => exact iff_of_false (not_gives_exhausted _ _ _) (not_gives_exhausted _ _ _)
  | succ n => rw [gives_bodyItems, gives_bodyItems, hskip]

/-- Up to the brace that closes them these statements are read. -/
structure ReadsTo (us : List Token) (ns : List Node) (last : Token) : Prop where
  ended : ∀ line, Cursor.Ended ⟨line, us⟩
  reads : ∀ context line, ∃ line' n, (bodyItems n context).Gives ⟨line, us⟩ ns ⟨line', [last]⟩

/-- At the closing brace there are no more statements. -/
theorem readsTo_close (ht : t.kind = .rbrace) (hlast : last.kind = .eof) :
    ReadsTo [t, last] [] last where
  ended _ := ⟨⟨last, rfl, hlast⟩, fun _ _ => trivial⟩
  reads context line := by
    refine ⟨t.pos.line, 1, (gives_bodyItems _ _ _ _ _).2 (.inl ?_)⟩
    rw [skipSeparators_of_not (by simp [ht])]
    exact ⟨ht, rfl, rfl⟩

/-- A separator in front is passed. -/
theorem ReadsTo.separator (h : ReadsTo us ns last) (ht : t.kind = .comma ∨ t.kind = .semicolon) :
    ReadsTo (t :: us) ns last where
  ended line := ended_append [t] (h.ended line)
  reads context line := by
    obtain ⟨line', n, hgives⟩ := h.reads context t.pos.line
    exact ⟨line', n, (bodyItems_separator (h.ended 0).ne_nil ht).2 hgives⟩

/-- Statements are put in front of those that are read of what they leave. -/
theorem ReadsTo.append (h : ReadsTo vs ns last) (hus : BeginsWith us nodes vs)
    (hended : ∀ line, Cursor.Ended ⟨line, us⟩) : ReadsTo us (nodes ++ ns) last := by
  induction hus with
  | nil => exact h
  | cons hhead hfirst _ ih =>
    refine ⟨hended, fun context line => ?_⟩
    obtain ⟨m, line', hs⟩ := hfirst line
    have hothers := ih h fun _ => ((forward m).statement (hended line) hs).ended
    obtain ⟨line'', n, ho⟩ := hothers.reads context line'
    exact ⟨line'', (bodyItems_iff (hended line) hhead hs).2 ⟨_, rfl, n, ho⟩⟩

/-- Statements are taken away from those that are read, and what they leave is read. -/
theorem BeginsWith.bodyItems {n line : Nat} {context : String} {d : Cursor}
    (hus : BeginsWith us nodes vs) (hended : Cursor.Ended ⟨line, us⟩)
    (h : (bodyItems n context).Gives ⟨line, us⟩ ns d) :
    ∃ others, ns = nodes ++ others ∧
      ∃ line' n, (Rule.bodyItems n context).Gives ⟨line', vs⟩ others d := by
  induction hus generalizing line n ns with
  | nil => exact ⟨ns, rfl, line, n, h⟩
  | cons hhead hfirst _ ih =>
    obtain ⟨m, line', hs⟩ := hfirst line
    obtain ⟨others, rfl, n, ho⟩ := (bodyItems_iff hended hhead hs).1 ⟨n, h⟩
    obtain ⟨others, rfl, hrest⟩ := ih ((forward m).statement hended hs).ended ho
    exact ⟨others, rfl, hrest⟩

/-- Statements up to the end of input are a document. -/
theorem BeginsWith.document {line : Nat} (hus : BeginsWith us nodes [last])
    (hlast : last.kind = .eof) (hended : Cursor.Ended ⟨line, us⟩) {k : Nat}
    (hk : 10 * us.length + 3 ≤ k) : ∃ d, (Rule.document k).Gives ⟨line, us⟩ nodes d := by
  generalize hvs : [last] = vs at hus
  obtain ⟨k, rfl⟩ := Nat.exists_eq_succ_of_ne_zero (n := k) (by omega)
  induction hus generalizing line k with
  | nil =>
    subst hvs
    have hskip : Cursor.skipSeparators ⟨line, [last]⟩ = ⟨line, [last]⟩ :=
      skipSeparators_of_not (by simp [hlast])
    exact ⟨_, (gives_document _ _ _ _).2 (.inl ⟨by rw [hskip]; exact hlast, rfl, rfl⟩)⟩
  | @cons us vs _ _ _ hhead hfirst _ ih =>
    obtain ⟨t, ts, rfl⟩ : ∃ t ts, us = t :: ts := List.exists_cons_of_ne_nil hended.ne_nil
    have hkind := hhead t rfl
    have hskip : Cursor.skipSeparators ⟨line, t :: ts⟩ = ⟨line, t :: ts⟩ :=
      skipSeparators_of_not (by rcases hkind with h | h <;> simp [h])
    obtain ⟨m, line', hs⟩ := hfirst line
    have hreads := (forward m).statement hended hs
    have hshorter := hreads.shorter
    dsimp only at hshorter
    -- What the first statement leaves is shorter, so the budget is large enough for it.
    obtain ⟨k, rfl⟩ := Nat.exists_eq_succ_of_ne_zero (n := k) (by omega)
    have hroom : 10 * vs.length + 3 ≤ k + 1 := by omega
    obtain ⟨d, hothers⟩ := ih hreads.ended hvs k hroom
    refine ⟨d, (gives_document _ _ _ _).2 (.inr ?_)⟩
    rw [hskip]
    refine ⟨?_, _, _, _, (afforded m).statement hended hs _ ?_, hothers, rfl⟩
    · rcases hkind with h | h <;> simp [h]
    · dsimp only
      omega

/-! ## 4. Statements in braces as an expression -/

/-- Statements in braces are an expression. -/
theorem ReadsTo.expression (h : ReadsTo us ns last) (ht : t.kind = .lbrace)
    (hlast : last.kind = .eof) {k : Nat} (hk : 10 * us.length + 15 ≤ k) (line : Nat) :
    ∃ line', (Rule.expression k).Gives ⟨line, t :: us⟩ (.ofEntries ns) ⟨line', [last]⟩ := by
  obtain ⟨line', n, hgives⟩ := h.reads "for map literal" t.pos.line
  have hprimary : (primary (n + 2)).Gives ⟨line, t :: us⟩ (.ofEntries ns) ⟨line', [last]⟩ := by
    refine (gives_primary _ _ _ _).2 (.entries ht ((gives_body _ _ _ _ _).2 ⟨ht, ?_⟩))
    rw [skip_cons (h.ended 0).ne_nil]
    exact hgives
  -- Behind the closing brace nothing goes on.
  have hend : (Cursor.mk line' [last]).peekAt 0 = last := rfl
  have hmembers : (members (n + 2) (.ofEntries ns)).Gives ⟨line', [last]⟩ (.ofEntries ns)
      ⟨line', [last]⟩ :=
    (gives_members _ _ _ _ _).2 (.inl ⟨by simp [hend, hlast], rfl, rfl⟩)
  have hunary : (unary (n + 3)).Gives ⟨line, t :: us⟩ (.ofEntries ns) ⟨line', [last]⟩ := by
    refine (gives_unary _ _ _ _).2 (.inr ⟨?_, _, _, hprimary, hmembers⟩)
    show UnaryOp.ofKind? t.kind = none
    rw [ht]
    rfl
  have hclimb : (climb (n + 3) 1 (.ofEntries ns)).Gives ⟨line', [last]⟩ (.ofEntries ns)
      ⟨line', [last]⟩ := by
    refine (gives_climb _ _ _ _ _ _).2 (.inl ⟨?_, rfl, rfl⟩)
    have hno : (Cursor.mk line' [last]).operator? = none := by
      unfold Cursor.operator?
      rw [hend, hlast]
      rfl
    simp [hno]
  have hexpression : (Rule.expression (n + 5)).Gives ⟨line, t :: us⟩ (.ofEntries ns)
      ⟨line', [last]⟩ :=
    (gives_expression _ _ _ _).2 ⟨_, _, (gives_binary _ _ _ _ _).2 ⟨_, _, hunary, hclimb⟩,
      .inl ⟨by simp [hend, hlast], rfl, rfl⟩⟩
  have hended : Cursor.Ended ⟨line, t :: us⟩ := ended_append [t] (h.ended 0)
  exact ⟨line', (afforded _).expression hended hexpression k (by dsimp only; simp; omega)⟩

/-- If a map comes out of the loop over members, it went in: a member is no map. -/
theorem map_of_members {n : Nat} {left : Node} {c d : Cursor}
    (h : (members n left).Gives c (.map ns) d) : left = .map ns := by
  induction n generalizing left c with
  | zero => exact absurd h (not_gives_exhausted _ _ _)
  | succ n ih =>
    rcases (gives_members _ _ _ _ _).1 h with ⟨-, rfl, -⟩ | ⟨-, -, h⟩
    · rfl
    · cases ih h

/-- The same of the loop over operators. -/
theorem map_of_climb {n least : Nat} {left : Node} {c d : Cursor}
    (h : (climb n least left).Gives c (.map ns) d) : left = .map ns := by
  induction n generalizing left c with
  | zero => exact absurd h (not_gives_exhausted _ _ _)
  | succ n ih =>
    rcases (gives_climb _ _ _ _ _ _).1 h with ⟨-, rfl, -⟩ | ⟨_, _, _, -, -, -, h⟩
    · rfl
    · cases ih h

/-- A map is read of the statements in its braces. -/
theorem bodyItems_of_expression {n : Nat} {c d : Cursor} (hk : (c.peekAt 0).kind = .lbrace)
    (h : (Rule.expression n).Gives c (.map ns) d) :
    ∃ n e, (bodyItems n "for map literal").Gives c.skip ns e := by
  -- Nothing that goes on behind the closing brace makes a map.
  obtain ⟨n, e, hbinary⟩ : ∃ n e, (binary n 1).Gives c (.map ns) e := by
    cases n with
    | zero => exact absurd h (not_gives_exhausted _ _ _)
    | succ n =>
      obtain ⟨_, e, hb, ⟨-, rfl, -⟩ | ⟨-, _, _, _, -, -, -, hno⟩⟩ := (gives_expression _ _ _ _).1 h
      · exact ⟨n, e, hb⟩
      · cases hno
  obtain ⟨n, e, hunary⟩ : ∃ n e, (unary n).Gives c (.map ns) e := by
    cases n with
    | zero => exact absurd hbinary (not_gives_exhausted _ _ _)
    | succ n =>
      obtain ⟨left, e, hu, hclimb⟩ := (gives_binary _ _ _ _ _).1 hbinary
      obtain rfl := map_of_climb hclimb
      exact ⟨n, e, hu⟩
  obtain ⟨n, e, hprimary⟩ : ∃ n e, (primary n).Gives c (.map ns) e := by
    cases n with
    | zero => exact absurd hunary (not_gives_exhausted _ _ _)
    | succ n =>
      obtain ⟨_, _, -, -, hno⟩ | ⟨-, left, e, hp, hmembers⟩ := (gives_unary _ _ _ _).1 hunary
      · cases hno
      · obtain rfl := map_of_members hmembers
        exact ⟨n, e, hp⟩
  cases n with
  | zero => exact absurd hprimary (not_gives_exhausted _ _ _)
  | succ n =>
    generalize hnode : Node.map ns = node at hprimary
    cases (gives_primary _ _ _ _).1 hprimary with
    | @entries statements _ _ hbody =>
      obtain rfl : ns = statements := by
        rcases ofEntries_eq statements with hmap | hmap <;> rw [hmap] at hnode
        · exact Node.map.inj hnode
        · cases hnode
      cases n with
      | zero => exact absurd hbody (not_gives_exhausted _ _ _)
      | succ n => exact ⟨n, e, ((gives_body _ _ _ _ _).1 hbody).2⟩
    | number hk' | str hk' | heredoc hk' | bool hk' | null hk' | call hk' | ident hk' | envRef hk'
    | group hk' | list hk' | directive hk' => exact absurd (hk.symm.trans hk') (by decide)

/-! ## 5. An expression alone -/

/-- No expression begins with an equals sign. -/
theorem not_sign_of_expression {n : Nat} {c : Cursor} {node : Node} {d : Cursor}
    (h : (Rule.expression n).Gives c node d) :
    (c.peekAt 0).kind ≠ .assign ∧ (c.peekAt 0).kind ≠ .eq := by
  rcases n with _ | _ | _ | n
  · exact absurd h (not_gives_exhausted _ _ _)
  · obtain ⟨condition, e, hb, -⟩ := (gives_expression _ _ _ _).1 h
    exact absurd hb (not_gives_exhausted _ _ _)
  · obtain ⟨condition, e, hb, -⟩ := (gives_expression _ _ _ _).1 h
    obtain ⟨left, e', hu, -⟩ := (gives_binary _ _ _ _ _).1 hb
    exact absurd hu (not_gives_exhausted _ _ _)
  obtain ⟨condition, e, hb, -⟩ := (gives_expression _ _ _ _).1 h
  obtain ⟨left, e', hu, -⟩ := (gives_binary _ _ _ _ _).1 hb
  rcases (gives_unary _ _ _ _).1 hu with ⟨op, operand, ho, -⟩ | ⟨-, operand, e'', hp, -⟩
  · constructor <;> intro hk <;> rw [hk] at ho <;> cases ho
  · cases n with
    | zero => exact absurd hp (not_gives_exhausted _ _ _)
    | succ n => cases (gives_primary _ _ _ _).1 hp <;> simp_all

/-- Where nothing but comments is in front of the end of input, every token is one of them. -/
theorem comments_of_skipComments {line : Nat} {front : List Token}
    (hfront : ∀ t ∈ front, t.kind ≠ .eof)
    (h : ((Cursor.mk line (front ++ [last])).skipComments.peekAt 0).kind = .eof) :
    ∀ t ∈ front, t.kind = .comment := by
  induction front generalizing line with
  | nil => simp
  | cons t front ih =>
    obtain ⟨ht, hfront⟩ := List.forall_mem_cons.1 hfront
    obtain ⟨u, vs, hus⟩ : ∃ u vs, front ++ [last] = u :: vs :=
      List.exists_cons_of_ne_nil (by simp)
    have hcomment : t.kind = .comment := by
      by_contra hk
      rw [List.cons_append, skipComments_of_not hk] at h
      exact ht h
    have hskip : (Cursor.mk line (t :: front ++ [last])).skipComments =
        (Cursor.mk t.pos.line (front ++ [last])).skipComments := by
      simp [Cursor.skipComments, skipKinds, hus, hcomment]
    rw [hskip] at h
    exact List.forall_mem_cons.2 ⟨hcomment, ih hfront h⟩

/-- What is read of a text as an expression, up to the comments behind it. -/
theorem exists_of_loneExpression {n : Nat} {init : List Token} {node : Node} {d : Cursor}
    (hinit : ∀ t ∈ init, t.kind ≠ .eof) (hlast : last.kind = .eof)
    (h : (loneExpression n).Gives (.ofTokens (init ++ [last])) node d) :
    ∃ e front, (Rule.expression n).Gives (.ofTokens (init ++ [last])) node e ∧
      e.rest = front ++ [last] ∧ ∀ t ∈ front, t.kind = .comment := by
  obtain ⟨e, hexpression, heof, -⟩ := (gives_loneExpression _ _ _ _).1 h
  have hreads := (forward n).expression
    ⟨⟨last, List.getLast?_concat, hlast⟩, fun _ _ => trivial⟩ hexpression
  rcases List.suffix_concat_iff.1 hreads.suffix with hnil | ⟨front, hrest, hsuffix⟩
  · exact absurd hnil hreads.ended.ne_nil
  obtain ⟨line, rest⟩ := e
  obtain rfl : rest = front ++ [last] := hrest
  exact ⟨_, front, hexpression, rfl,
    comments_of_skipComments (fun t ht => hinit t (hsuffix.mem ht)) heof⟩

end Rule

end BlockConfig
