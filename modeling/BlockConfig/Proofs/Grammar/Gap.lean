import BlockConfig.Proofs.Grammar.Omission

/-!
What ends in front of an omitted comment.

When one comment of a document is left out, what ends in front of it may go on behind it, or not.
Rules that go on as long as they can, over operators, members and values, stop at a comment. What
follows it tells whether they would have stopped without it. Where a comma or a bracket follows they
would (`settled_of_skipComments`). Where statements follow, nothing but the next statement or the
end of all statements can stand behind the comment (`Follows.calm`), and of what ends there only
flags look further than one token (`flag_of_named`).
-/

set_option autoImplicit false

namespace BlockConfig

open Cursor Rule Node Commented

namespace Omission

variable {α : Type} (o : Omission)

/-! ## 1. Trees that are the same -/

/-- Trees that differ at most in their comments and their positions. -/
def SameTree (t t' : Node) : Prop :=
  t.uncommented.unplaced = t'.uncommented.unplaced

/-- Statements that do. -/
def SameStatements (ns ns' : List Node) : Prop :=
  unplacedAll (uncommentedAll ns) = unplacedAll (uncommentedAll ns')

/-- Expressions that do. -/
def SameValues (ns ns' : List Node) : Prop :=
  unplacedAll (uncommentedEach ns) = unplacedAll (uncommentedEach ns')

/-- Such trees, or none on either side. -/
def SameOption (o o' : Option Node) : Prop :=
  unplacedOption (uncommentedOption o) = unplacedOption (uncommentedOption o')

/-- Chains of such trees. -/
def SameBranches (bs bs' : List (Branch Node)) : Prop :=
  unplacedBranches (uncommentedBranches bs) = unplacedBranches (uncommentedBranches bs')

/-- A tree is a comment on both sides. -/
theorem SameTree.isComment {t t' : Node} (h : SameTree t t') : t.isComment = t'.isComment := by
  rw [← isComment_uncommented t, ← isComment_unplaced, h, isComment_unplaced,
    isComment_uncommented]

/-- Statements stay the same when the same one is put in front. -/
theorem SameStatements.cons {n n' : Node} {ns ns' : List Node} (h : SameTree n n')
    (hs : SameStatements ns ns') : SameStatements (n :: ns) (n' :: ns') := by
  unfold SameStatements at hs ⊢
  rw [uncommentedAll, uncommentedAll, h.isComment]
  split
  next => exact hs
  next => rw [unplacedAll, unplacedAll, h, hs]

/-- A comment in front of statements does not count. -/
theorem SameStatements.comment {ns ns' : List Node} (hs : SameStatements ns ns') (text : String) :
    SameStatements (.comment text :: ns) ns' := by
  unfold SameStatements at hs ⊢
  rw [uncommentedAll, Node.isComment, if_pos rfl]
  exact hs

/-- So do values. -/
theorem SameValues.cons {n n' : Node} {ns ns' : List Node} (h : SameTree n n')
    (hs : SameValues ns ns') : SameValues (n :: ns) (n' :: ns') := by
  unfold SameValues at hs ⊢
  rw [uncommentedEach, uncommentedEach, unplacedAll, unplacedAll, h, hs]

/-- There are as many values on both sides. -/
theorem SameValues.length {ns ns' : List Node} (h : SameValues ns ns') :
    ns.length = ns'.length := by
  have each : ∀ ms : List Node, (unplacedAll (uncommentedEach ms)).length = ms.length := by
    intro ms
    induction ms with
    | nil => rfl
    | cons m ms ih => rw [uncommentedEach, unplacedAll, List.length_cons, ih, List.length_cons]
  rw [← each ns, h, each ns']

theorem SameTree.some {t t' : Node} (h : SameTree t t') : SameOption (some t) (some t') := by
  unfold SameTree at h
  simp only [SameOption, uncommentedOption, unplacedOption, h]

/-- Parentheses are taken off on both sides. -/
theorem SameTree.ungroup {t t' : Node} (h : SameTree t t') : SameTree (ungroup t) (ungroup t') := by
  have hungroup : ∀ n : Node, (Rule.ungroup n).unplaced = Rule.ungroup n.unplaced := by
    intro n
    cases n <;> simp [Rule.ungroup, unplaced]
  unfold SameTree at h ⊢
  rw [uncommented_ungroup, uncommented_ungroup, hungroup, hungroup, h]

/-- Blocks are the same if their statements are, since comments do not decide whether one is a container. -/
theorem SameStatements.ofBlock {ns ns' : List Node} (hs : SameStatements ns ns') (kind : String)
    (label : Option String) (pos pos' : Position) :
    SameTree (ofBlock kind label ns pos) (ofBlock kind label ns' pos') := by
  unfold SameStatements at hs
  unfold SameTree
  rw [uncommented_ofBlock, uncommented_ofBlock, unplaced_ofBlock, unplaced_ofBlock, hs]

/-- Nor do they decide whether entries make a map or a combined one. -/
theorem SameStatements.ofEntries {ns ns' : List Node} (hs : SameStatements ns ns') :
    SameTree (ofEntries ns) (ofEntries ns') := by
  unfold SameStatements at hs
  unfold SameTree
  rw [uncommented_ofEntries, uncommented_ofEntries, unplaced_ofEntries, unplaced_ofEntries, hs]

/-- Values for the same names, wherever the names stand. -/
theorem SameValues.assignEach {ns ns' : List Node} (hs : SameValues ns ns')
    {targets targets' : List Target}
    (ht : (targets.map fun t => (⟨t.name, .start⟩ : Target)) =
      targets'.map fun t => ⟨t.name, .start⟩) :
    SameTree (.assignEach (targets.zip ns)) (.assignEach (targets'.zip ns')) := by
  have hzip : ∀ (ts : List Target) (ms : List Node), unplacedPairs (ts.zip ms) =
      (ts.map fun t => ⟨t.name, .start⟩).zip (unplacedAll ms) := by
    intro ts ms
    induction ts generalizing ms with
    | nil => rfl
    | cons t ts ih =>
      cases ms with
      | nil => rfl
      | cons m ms => simp [unplacedPairs, unplacedAll, ih]
  unfold SameValues at hs
  simp only [SameTree, uncommented, unplaced, uncommentedPairs_zip, hzip, ht, hs]

/-! ## 2. Rules that stop at the gap -/

variable {o} {c d : Cursor}

/-- A comment is not the end of input. -/
theorem left_ne_nil (hc : c.Ended) (hg : o.AtGap c) : o.left ≠ [] := by
  intro hleft
  obtain ⟨⟨t, ht, hk⟩, -⟩ := hc
  rw [hg, gap, hleft] at ht
  have ht : o.comment = t := Option.some.inj ht
  rw [← ht, o.isComment] at hk
  exact Kind.noConfusion hk

/-- At the gap nothing is read by rules that go on, -/
theorem climb_of_atGap {n least : Nat} {left t : Node} (hg : o.AtGap c)
    (h : (climb n least left).Gives c t d) : d = c := by
  cases n with
  | zero => exact absurd h (not_gives_exhausted _ _ _)
  | succ n =>
    rcases (gives_climb _ _ _ _ _ _).1 h with ⟨-, -, rfl⟩ | ⟨op, _, _, ho, -⟩
    · rfl
    · rw [operator?_of_atGap hg] at ho
      cases ho

/-- No member follows at the comment. -/
theorem members_of_atGap {n : Nat} {left t : Node} (hg : o.AtGap c)
    (h : (members n left).Gives c t d) : d = c := by
  cases n with
  | zero => exact absurd h (not_gives_exhausted _ _ _)
  | succ n =>
    rcases (gives_members _ _ _ _ _).1 h with ⟨-, -, rfl⟩ | ⟨hk, -⟩
    · rfl
    · exact absurd hg (not_atGap_of_kind hk Kind.noConfusion)

/-- No more values follow there. -/
theorem moreValues_of_atGap {n limit : Nat} {ns : List Node} (hg : o.AtGap c)
    (h : (moreValues n limit).Gives c ns d) : d = c := by
  cases n with
  | zero => exact absurd h (not_gives_exhausted _ _ _)
  | succ n =>
    cases limit with
    | zero => exact ((gives_moreValues_zero _ _ _ _).1 h).2
    | succ limit =>
      rcases (gives_moreValues _ _ _ _ _).1 h with ⟨-, -, rfl⟩ | ⟨hk, -⟩
      · rfl
      · exact absurd hg (not_atGap_of_kind hk Kind.noConfusion)

/-- and a statement is the comment. -/
theorem statement_of_atGap {n : Nat} {t : Node} (hg : o.AtGap c)
    (h : (Rule.statement n).Gives c t d) : t = .comment o.comment.literal ∧ d = c.skip := by
  have hcomment : c.peekAt 0 = o.comment := by
    obtain ⟨_, us⟩ := c
    obtain rfl : us = o.gap := hg
    rfl
  have hname : ¬(c.peekAt 0).isName = true := fun hn => absurd hg (not_atGap_of_isName hn)
  cases n with
  | zero => exact absurd h (not_gives_exhausted _ _ _)
  | succ n =>
    cases (gives_statement _ _ _ _).1 h with
    | comment => exact ⟨by rw [hcomment], rfl⟩
    | directive hk | control hk => exact absurd hg (not_atGap_of_kind hk Kind.noConfusion)
    | arrow hn | named hn => exact absurd hn hname

/-- A name in front of the gap is a flag. -/
theorem flag_of_named {n : Nat} {t : Node} (h : Named n c t d)
    (hg : o.AtGap c.skip ∨ (c.skip.peekAt 0).isName = true ∧ o.AtGap c.skip.skip) :
    t = .assign ⟨(c.peekAt 0).literal, (c.peekAt 0).pos⟩ (.literal (.bool true)) .flag ∧
      d = c.skip := by
  -- Whatever else a statement begins with shows at its second token or at its third.
  have second : ∀ {k : Kind}, (c.peekAt 1).kind = k → k ≠ .comment → k ≠ .ident → k ≠ .str →
      False := by
    intro k hk hc hi hs
    rw [Seam.peekAt_succ] at hk
    rcases hg with hg | ⟨hn, -⟩
    · exact not_atGap_of_kind hk hc hg
    · simp only [Token.isName, Bool.or_eq_true, decide_eq_true_eq, hk] at hn
      exact hn.elim hi hs
  cases h with
  | block hn => exact (second hn (by decide) (by decide) (by decide)).elim
  | labelled hn _ h2 =>
    rw [Seam.peekAt_succ] at hn
    rw [Seam.peekAt_succ, Seam.peekAt_succ] at h2
    rcases hg with hg | ⟨-, hg⟩
    · exact absurd hg (not_atGap_of_isName hn)
    · exact absurd hg (not_atGap_of_kind h2 Kind.noConfusion)
  | assign hn =>
    rcases hn with hn | hn
    · exact (second hn (by decide) (by decide) (by decide)).elim
    · exact (second hn (by decide) (by decide) (by decide)).elim
  | assignEach _ hn | destructure _ hn =>
    exact (second hn (by decide) (by decide) (by decide)).elim
  | flag => exact ⟨rfl, rfl⟩

/-- At most a name is left to be read in front of the comment. -/
def Near (o : Omission) (c : Cursor) : Prop :=
  o.AtGap c ∨ (c.peekAt 0).isName = true ∧ o.AtGap c.skip

/-! ## 3. What follows the gap -/

/-- Statements follow, up to something that closes them. -/
inductive Follows : Cursor → Prop
  | close {c : Cursor} (hk : (c.skipSeparators.peekAt 0).kind = .rbrace ∨
      (c.skipSeparators.peekAt 0).kind = .eof) : Follows c
  | statement {n : Nat} {c d : Cursor} {t : Node}
      (hs : (Rule.statement n).Gives c.skipSeparators t d) (rest : Follows d) : Follows c

/-- What a body reads are statements. -/
theorem follows_of_bodyItems {n : Nat} {context : String} {ns : List Node}
    (h : (bodyItems n context).Gives c ns d) : Follows c := by
  induction n generalizing c ns with
  | zero => exact absurd h (not_gives_exhausted _ _ _)
  | succ n ih =>
    rcases (gives_bodyItems _ _ _ _ _).1 h with ⟨hk, -⟩ | ⟨-, -, _, _, _, hs, ho, -⟩
    · exact .close (.inl hk)
    · exact .statement hs (ih ho)

/-- So is what a document reads. -/
theorem follows_of_document {n : Nat} {ns : List Node} (h : (document n).Gives c ns d) :
    Follows c := by
  induction n generalizing c ns with
  | zero => exact absurd h (not_gives_exhausted _ _ _)
  | succ n ih =>
    rcases (gives_document _ _ _ _).1 h with ⟨hk, -⟩ | ⟨-, _, _, _, hs, ho, -⟩
    · exact .close (.inr hk)
    · exact .statement hs (ih ho)

/-- The items of a pipeline are statements. -/
theorem follows_of_pipelineItems {n : Nat} {ns : List Node}
    (h : (pipelineItems n).Gives c ns d) : Follows c := by
  induction n generalizing c ns with
  | zero => exact absurd h (not_gives_exhausted _ _ _)
  | succ n ih =>
    cases (gives_pipelineItems _ _ _ _).1 h with
    | close hk => exact .close (.inl hk)
    | comment hk ho =>
      exact .statement ((gives_statement n _ _ _).2 (.comment hk)) (ih ho)
    | arrow hn ha hf ho => exact .statement ((gives_statement _ _ _ _).2 (.arrow hn ha hf)) (ih ho)
    | step hn ha _ hf ho => exact .statement ((gives_statement _ _ _ _).2 (.named hn ha hf)) (ih ho)

/-- What begins a statement can stand behind something complete. -/
theorem resumes_of_statement {n : Nat} {t : Node} (h : (Rule.statement n).Gives c t d) :
    (c.peekAt 0).kind.resumes = true := by
  cases n with
  | zero => exact absurd h (not_gives_exhausted _ _ _)
  | succ n =>
    cases (gives_statement _ _ _ _).1 h with
    | comment hk | directive hk | control hk =>
      rw [hk]
      rfl
    | arrow hn | named hn =>
      rcases Token.isName_iff.1 hn with hn | hn <;> (rw [hn]; rfl)

/-- In front of another token no separator is passed. -/
theorem skipSeparators_of_kind (hs : (c.peekAt 0).kind ≠ .semicolon)
    (hc : (c.peekAt 0).kind ≠ .comma) : c.skipSeparators = c := by
  obtain ⟨line, ts⟩ := c
  match ts with
  | [] | [_] => rfl
  | t :: u :: rest =>
    have hs : t.kind ≠ .semicolon := hs
    have hc : t.kind ≠ .comma := hc
    unfold Cursor.skipSeparators Cursor.skipKinds
    simp [hs, hc]

/-- What follows begins with something that can stand behind something complete. -/
theorem Follows.resumes (h : Follows c) : (c.peekAt 0).kind.resumes = true := by
  by_cases hs : (c.peekAt 0).kind = .semicolon
  · rw [hs]
    rfl
  by_cases hc : (c.peekAt 0).kind = .comma
  · rw [hc]
    rfl
  cases h with
  | close hk =>
    rw [skipSeparators_of_kind hs hc] at hk
    rcases hk with hk | hk <;> (rw [hk]; rfl)
  | statement hst =>
    rw [skipSeparators_of_kind hs hc] at hst
    exact resumes_of_statement hst

/-- Behind the comment goes on what follows in front of it. -/
theorem Follows.calm_of_atGap (h : Follows c) (he : c.Ended) (hg : o.AtGap c) : o.Calm := by
  have hcomment : (c.peekAt 0).kind = .comment := by
    obtain ⟨_, us⟩ := c
    obtain rfl : us = o.gap := hg
    exact o.isComment
  have hskip : c.skipSeparators = c :=
    skipSeparators_of_kind (by rw [hcomment]; decide) (by rw [hcomment]; decide)
  have hleft := left_ne_nil he hg
  cases h with
  | close hk =>
    rw [hskip, hcomment] at hk
    rcases hk with hk | hk <;> cases hk
  | @statement n _ e t hst rest =>
    rw [hskip] at hst
    obtain ⟨-, rfl⟩ := statement_of_atGap hg hst
    rw [skip_of_atGap hg hleft] at rest
    intro u hu
    obtain ⟨v, vs, hvs⟩ := List.exists_cons_of_ne_nil hleft
    have hresumes := rest.resumes
    rw [hvs] at hu hresumes
    obtain rfl := Option.some.inj hu
    exact hresumes

/-- Where statements follow and at most a name is left in front of the comment, what stands behind it begins
a statement too, or closes them. A name in front of the comment is a flag, and so the comment is the
statement behind it. -/
theorem Follows.calm (h : Follows c) (hc : c.Ended) (hn : o.Near c) : o.Calm := by
  rcases hn with hg | ⟨hname, hg⟩
  · exact h.calm_of_atGap hc hg
  have hkind : (c.peekAt 0).kind = .ident ∨ (c.peekAt 0).kind = .str := by
    simpa only [Token.isName, Bool.or_eq_true, decide_eq_true_eq] using hname
  have hskip : c.skipSeparators = c := by
    rcases hkind with hk | hk <;>
      exact skipSeparators_of_kind (by rw [hk]; decide) (by rw [hk]; decide)
  -- A name in front of the comment is a statement, and the comment is the next one.
  cases h with
  | close hk =>
    rw [hskip] at hk
    rcases hk with hk | hk <;> simp [hk] at hkind
  | @statement n _ e t hst rest =>
    rw [hskip] at hst
    have he : e = c.skip := by
      cases n with
      | zero => exact absurd hst (not_gives_exhausted _ _ _)
      | succ n =>
        cases (gives_statement _ _ _ _).1 hst with
        | comment hk | directive hk | control hk => simp [hk] at hkind
        | arrow _ ha =>
          have hno : arrowAhead? c = none := by
            have h1 : (c.peekAt 1).kind = .comment := by
              rw [Seam.peekAt_succ]
              generalize c.skip = b at hg
              obtain ⟨_, us⟩ := b
              obtain rfl : us = o.gap := hg
              exact o.isComment
            unfold arrowAhead?
            simp [Token.isName, h1]
          rw [hno] at ha
          cases ha
        | named _ _ hb =>
          cases n with
          | zero => exact absurd hb (not_gives_exhausted _ _ _)
          | succ n => exact (flag_of_named ((gives_blockOrAssignment _ _ _ _).1 hb) (.inl hg)).2
    subst he
    exact rest.calm_of_atGap hc.skip hg

/-- Where nothing but a mark can be meant, what was read is settled. -/
theorem settled_of_head {u : Token} {us : List Token} (hleft : o.left = u :: us)
    (hr : u.kind.resumes = true) (hi : u.kind ≠ .ident) (line : Nat) : o.Settled line where
  calm := by
    intro t ht
    rw [hleft] at ht
    obtain rfl := Option.some.inj ht
    exact hr
  operator := by
    have hu : (Cursor.mk line o.left).peekAt 0 = u := by
      rw [hleft]
      rfl
    unfold Cursor.operator?
    rw [hu, if_neg hi, Kind.ofKind?_of_resumes hr]

/-- So it is in front of comments and a mark. -/
theorem settled_of_skipComments {k : Kind} (hc : c.Ended) (hg : o.AtGap c)
    (hk : (c.skipComments.peekAt 0).kind = k) (hr : k.resumes = true) (hi : k ≠ .ident)
    (line : Nat) : o.Settled line := by
  obtain ⟨u, us, hleft⟩ := List.exists_cons_of_ne_nil (left_ne_nil hc hg)
  by_cases hu : u.kind = .comment
  · exact settled_of_head hleft (by rw [hu]; rfl) (by rw [hu]; exact Kind.noConfusion) line
  · have hskip : c.skipComments = ⟨o.comment.pos.line, u :: us⟩ := by
      obtain ⟨l, ts⟩ := c
      obtain rfl : ts = o.gap := hg
      rw [gap, hleft]
      unfold Cursor.skipComments
      rw [Cursor.skipKinds, if_pos (by simp [o.isComment])]
      cases us with
      | nil => rfl
      | cons v vs => rw [Cursor.skipKinds, if_neg (by simp [hu])]
    rw [hskip] at hk
    have hk : u.kind = k := hk
    exact settled_of_head hleft (hk ▸ hr) (hk ▸ hi) line

/-! ## 4. Looking ahead -/

/-- What is behind the gap does not meet it again. -/
theorem not_atGap_of_length (h : c.rest.length ≤ o.left.length) : ¬o.AtGap c := by
  intro hg
  rw [hg, gap, List.length_cons] at h
  omega

/-- A statement begins where a brace was opened. -/
theorem Meets.begins {c' : Cursor} (h : o.Meets c c') (hk : (c.peekAt 0).kind = .lbrace) :
    Begins o.tokens c.skip.skipSeparators := by
  obtain ⟨line, ts⟩ := c
  obtain ⟨t, us, rfl⟩ := List.exists_cons_of_ne_nil h.facing.ne_nil.1
  have hk : t.kind = .lbrace := hk
  cases us with
  | nil =>
    obtain ⟨⟨u, hu, he⟩, -⟩ := h.ended
    obtain rfl : t = u := Option.some.inj hu
    exact Kind.noConfusion (hk.symm.trans he)
  | cons u us => exact .brace h.inside hk

/-- An arrow stands behind a name, or behind the name of a relation and a name. -/
theorem arrowAhead?_eq_some_iff (c : Cursor) (relation : Option Relation) :
    arrowAhead? c = some relation ↔
      (∃ r, relation = some r ∧ (c.peekAt 0).kind = .ident ∧ (c.skip.peekAt 0).isName = true ∧
        (c.skip.skip.peekAt 0).kind = .arrow ∧
        Relation.ofName? (c.peekAt 0).literal = some r) ∨
      (relation = none ∧ (c.peekAt 0).isName = true ∧ (c.skip.peekAt 0).kind = .arrow) := by
  have hname : (c.skip.peekAt 0).kind = .arrow → (c.skip.peekAt 0).isName = false := by
    intro h
    simp [Token.isName, h]
  unfold arrowAhead?
  simp only [Seam.peekAt_succ]
  -- A name may be a relation with an arrow behind the next name, or be itself in front of an arrow; not
  -- both, as an arrow is no name.
  by_cases typed : (c.peekAt 0).kind = .ident ∧ (c.skip.peekAt 0).isName = true ∧
      (c.skip.skip.peekAt 0).kind = .arrow
  · have harrow : (c.skip.peekAt 0).kind ≠ .arrow := by
      intro h
      rw [hname h] at typed
      exact Bool.noConfusion typed.2.1
    rw [if_pos typed]
    cases hr : Relation.ofName? (c.peekAt 0).literal with
    | none => simp [harrow]
    | some r =>
      constructor
      · intro h
        obtain rfl := Option.some.inj h
        exact .inl ⟨r, rfl, typed.1, typed.2.1, typed.2.2, rfl⟩
      · rintro (⟨_, rfl, -, -, -, h⟩ | ⟨-, -, ha⟩)
        · obtain rfl := Option.some.inj h
          rfl
        · exact absurd ha harrow
  · rw [if_neg typed]
    constructor
    · intro h
      have h : (if (c.peekAt 0).isName = true ∧ (c.skip.peekAt 0).kind = .arrow then
          some (none : Option Relation) else none) = some relation := h
      split at h
      next hn => exact .inr ⟨(Option.some.inj h).symm, hn⟩
      next => cases h
    · rintro (⟨r, rfl, hi, hn, ha, -⟩ | ⟨rfl, hn⟩)
      · exact absurd ⟨hi, hn, ha⟩ typed
      · exact if_pos hn

/-- An arrow ahead is ahead on the other side as well, -/
theorem Meets.arrowAhead? {c' : Cursor} {relation : Option Relation} (hm : o.Meets c c')
    (h : Rule.arrowAhead? c = some relation) : Rule.arrowAhead? c' = some relation := by
  rw [arrowAhead?_eq_some_iff] at h ⊢
  rcases h with ⟨r, rfl, hi, hn, ha, hr⟩ | ⟨rfl, hn, ha⟩
  · obtain ⟨twin, hfs⟩ := hm.step_of_kind hi Kind.noConfusion
    obtain ⟨twin₁, hfs₁⟩ := hfs.step_of_isName hn
    obtain ⟨twin₂, -⟩ := hfs₁.step_of_kind ha Kind.noConfusion
    exact .inl ⟨r, rfl, twin.kind ▸ hi, twin₁.isName ▸ hn, twin₂.kind ▸ ha, twin.literal ▸ hr⟩
  · obtain ⟨twin, hfs⟩ := hm.step_of_isName hn
    obtain ⟨twin₁, -⟩ := hfs.step_of_kind ha Kind.noConfusion
    exact .inr ⟨rfl, twin.isName ▸ hn, twin₁.kind ▸ ha⟩

/-- and where none is, there is none, unless the name ahead becomes a relation. -/
theorem Meets.arrowAhead?_eq_none {c' : Cursor} (hm : o.Meets c c')
    (hn : (c.peekAt 0).isName = true) (h : Rule.arrowAhead? c = none)
    (calm : o.Near c.skip → o.Calm)
    (hr : o.AtGap c.skip → (Relation.ofName? (c.peekAt 0).literal).isSome = true →
      ¬Seam.OpensArrow o.left) : Rule.arrowAhead? c' = none := by
  obtain ⟨twin, hfs⟩ := hm.step_of_isName hn
  rw [Option.eq_none_iff_forall_ne_some]
  intro relation h'
  rcases (arrowAhead?_eq_some_iff _ _).1 h' with ⟨r, rfl, hi', hn', ha', hr'⟩ | ⟨rfl, -, ha'⟩
  · by_cases hg : o.AtGap c.skip
    · -- What is behind the gap begins with a name and an arrow.
      obtain ⟨-, hleft, hoff⟩ := hfs.right_of_atGap hg 0
      obtain ⟨twin₁, hleft₁⟩ := hleft.step hoff
      have hoff₁ : ¬o.AtGap (Cursor.mk 0 o.left).skip :=
        not_atGap_of_length (suffix_skip ⟨0, o.left⟩).length_le
      have ha := (hleft₁.kind_iff (fun hg => absurd hg hoff₁) rfl).2 ha'
      refine hr hg ?_ (@Seam.opensArrow_of_peekAt 0 _ (twin₁.isName ▸ hn') ?_)
      · rw [twin.literal, hr']
        rfl
      · rw [Seam.peekAt_succ]
        exact ha
    · obtain ⟨twin₁, hfs₁⟩ := hfs.step hg
      have hn₁ := twin₁.isName ▸ hn'
      have ha := (hfs₁.kind_iff (fun hg => calm (.inr ⟨hn₁, hg⟩)) rfl).2 ha'
      rw [(arrowAhead?_eq_some_iff c (some r)).2 (.inl ⟨r, rfl, twin.kind.trans hi', hn₁, ha,
        twin.literal ▸ hr'⟩)] at h
      cases h
  · have ha := (hfs.kind_iff (fun hg => calm (.inl hg)) rfl).2 ha'
    rw [(arrowAhead?_eq_some_iff c none).2 (.inr ⟨rfl, hn, ha⟩)] at h
    cases h

/-- At the gap the next token behind it stands on the line that was reached on both sides or on
neither. -/
theorem Meets.line_iff_of_atGap {c' : Cursor} (hm : o.Meets c c') (hoff : ¬o.AtGap c)
    (hg : o.AtGap c.skip)
    (he : ((Cursor.mk c.skip.line o.left).peekAt 0).kind ≠ .eof) :
    ((Cursor.mk c.skip.line o.left).peekAt 0).pos.line = c.skip.line ↔
      (c'.skip.peekAt 0).pos.line = (c'.peekAt 0).pos.line := by
  have level := (hm.step hoff).2.level
  rw [Level, hg, ahead_gap] at level
  obtain ⟨u, us, hleft⟩ := List.exists_cons_of_ne_nil (left_ne_nil hm.ended.skip hg)
  rw [hleft] at level he ⊢
  obtain ⟨line, ts⟩ := c
  obtain ⟨line', ts'⟩ := c'
  obtain ⟨t, ts, rfl⟩ := List.exists_cons_of_ne_nil hm.facing.ne_nil.1
  obtain ⟨t', vs', rfl, -, ⟨rfl, rfl, -⟩ | ⟨-, rest⟩⟩ := hm.facing.uncons hoff
  · exact absurd hg hoff
  · obtain ⟨u', vs', rfl⟩ := List.exists_cons_of_ne_nil rest.ne_nil.2
    exact level u rfl u' rfl he

/-- A label that is ahead on the other side is ahead, or a name in front of the gap becomes the kind
of a block. -/
theorem Meets.labelAhead {c' : Cursor} (hm : o.Meets c c') (hn : (c.peekAt 0).isName = true)
    (calm : o.Near c.skip → o.Calm) (hn' : (c'.skip.peekAt 0).isName = true)
    (hl' : (c'.skip.peekAt 0).pos.line = (c'.peekAt 0).pos.line)
    (hb' : (c'.skip.skip.peekAt 0).kind = .lbrace) :
    ((c.skip.peekAt 0).isName = true ∧ (c.skip.peekAt 0).pos.line = (c.peekAt 0).pos.line ∧
        (c.skip.skip.peekAt 0).kind = .lbrace) ∨
      o.AtGap c.skip ∧ ((Cursor.mk c.skip.line o.left).peekAt 0).isName = true ∧
        ((Cursor.mk c.skip.line o.left).peekAt 0).pos.line = c.skip.line ∧
        ((Cursor.mk c.skip.line o.left).peekAt 1).kind = .lbrace := by
  obtain ⟨twin, hfs⟩ := hm.step_of_isName hn
  have heof : ∀ {t : Token}, t.isName = true → t.kind ≠ .eof := by
    intro t ht he
    simp [Token.isName, he] at ht
  by_cases hg : o.AtGap c.skip
  · obtain ⟨hright, hleft, hoff⟩ := hfs.right_of_atGap hg c.skip.line
    obtain ⟨twin₁, hleft₁⟩ := hleft.step hoff
    have hoff₁ : ¬o.AtGap (Cursor.mk c.skip.line o.left).skip :=
      not_atGap_of_length (suffix_skip ⟨c.skip.line, o.left⟩).length_le
    have hname := twin₁.isName ▸ hn'
    refine .inr ⟨hg, hname, ?_, ?_⟩
    · exact (hm.line_iff_of_atGap (not_atGap_of_isName hn) hg (heof hname)).2 hl'
    · rw [Seam.peekAt_succ]
      exact (hleft₁.kind_iff (fun hg => absurd hg hoff₁) rfl).2 hb'
  · obtain ⟨twin₁, hfs₁⟩ := hfs.step hg
    have hn₁ := twin₁.isName ▸ hn'
    have hl := (hm.line_iff (not_atGap_of_isName hn) hg (heof hn₁)).2 hl'
    exact .inl ⟨hn₁, hl, (hfs₁.kind_iff (fun hg => calm (.inr ⟨hn₁, hg⟩)) rfl).2 hb'⟩

/-- The second tokens are of one kind, unless the one is the comment. -/
theorem Faces.kind_second {c' : Cursor} {k : Kind} (h : o.Faces c.skip c'.skip)
    (hk : (c.peekAt 1).kind = k) (hne : k ≠ .comment) : (c'.peekAt 1).kind = k := by
  rw [Seam.peekAt_succ] at hk ⊢
  exact (h.step_of_kind hk hne).1.kind ▸ hk

/-- A flag is a flag on the other side, unless it goes on behind the gap. -/
theorem Meets.flag {c' : Cursor} {n : Nat} (hm : o.Meets c c') (hk : (c.peekAt 0).kind = .ident)
    (hb : (c.peekAt 1).kind ≠ .lbrace)
    (hl : ¬((c.peekAt 1).isName = true ∧ (c.peekAt 1).pos.line = (c.peekAt 0).pos.line ∧
      (c.peekAt 2).kind = .lbrace))
    (ha : ¬((c.peekAt 1).kind = .assign ∨ (c.peekAt 1).kind = .colon))
    (ht : targetList? c.rest = none) (calm : o.Near c.skip → o.Calm)
    (hgoes : ¬o.GoesOn c (.assign ⟨(c.peekAt 0).literal, (c.peekAt 0).pos⟩
      (.literal (.bool true)) .flag) c.skip) :
    Named n c' (.assign ⟨(c'.peekAt 0).literal, (c'.peekAt 0).pos⟩ (.literal (.bool true)) .flag)
      c'.skip := by
  obtain ⟨twin, hfs⟩ := hm.step_of_kind hk Kind.noConfusion
  have hname : (c.peekAt 0).isName = true := by simp [Token.isName, hk]
  have hnext : ∀ {kind : Kind}, kind.resumes = false → (c'.peekAt 1).kind = kind →
      (c.peekAt 1).kind = kind := by
    intro kind hkind h
    rw [Seam.peekAt_succ] at h ⊢
    exact (hfs.kind_iff (fun hg => calm (.inl hg)) hkind).2 h
  refine .flag (twin.kind ▸ hk) (fun h => hb (hnext rfl h)) ?_
    (fun h => ha (h.imp (hnext rfl) (hnext rfl))) ?_
  · simp only [Seam.peekAt_succ] at hl ⊢
    rintro ⟨hn', hline', hb'⟩
    rcases hm.labelAhead hname calm hn' hline' hb' with h | ⟨hg, h0, h1, h2⟩
    · exact hl h
    · exact hgoes (.label hg h0 h1 h2)
  · rcases hm.facing.twins with ⟨us, hus, h⟩ | h
    · refine targetList?_of_twins h ?_
      by_contra hsome
      exact hgoes (.targets hus (Option.isSome_iff_ne_none.2 hsome))
    · exact targetList?_of_twins h ht

end Omission

end BlockConfig
