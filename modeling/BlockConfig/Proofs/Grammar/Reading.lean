import BlockConfig.Proofs.Grammar.ReadingStatements

/-!
What spells a tree is read as that tree.

The lemmas for single kinds of node, put together by induction on the tree (`reads`), and what
follows for whole texts: the tokens that spell a list of statements are read as these statements
(`reads_document`), and the tokens that spell a value as this value (`reads_loneExpression`), each
up to positions and within the budget that the rules are given.
-/

set_option autoImplicit false

namespace BlockConfig

namespace Node

/-! ## 1. All trees -/

/-- A tree is read back wherever it may stand. -/
structure Reads (n : Node) : Prop where
  value : n.isValue = true → n.ReadsValue
  statement : n.isStatement = true → n.ReadsStatement
  step : n.isStep = true → n.ReadsStep

variable {n : Node}

theorem reads_of_value (hk : n.isStatement = false) (h : n.ReadsValue) : n.Reads where
  value _ := h
  statement hs := absurd hs (by simp [hk])
  step hs := absurd (isStatement_of_isStep hs) (by simp [hk])

theorem reads_of_operand (hf : Everywhere FitsHere n) (hv : n.isValue = true) (hr : n.rank = 5)
    (hk : n.isStatement = false) (h : n.ReadsOperand) : n.Reads :=
  reads_of_value hk (readsValue_of_members hf hv (readsMembers_of_operand hf hv hr h))

theorem reads_of_statement (hv : n.isValue = false) (hk : n.isStep = false) (h : n.ReadsStatement) :
    n.Reads where
  value hs := absurd hs (by simp [hv])
  statement _ := h
  step hs := absurd hs (by simp [hk])

theorem reads_of_directive (hf : Everywhere FitsHere n) (hv : n.isValue = true) (hr : n.rank = 5)
    (hk : n.isStep = false) (h : n.ReadsDirective) : n.Reads where
  value _ :=
    readsValue_of_members hf hv (readsMembers_of_operand hf hv hr (readsOperand_of_directive h))
  statement _ := readsStatement_of_directive h
  step hs := absurd hs (by simp [hk])

/-- **A tree that can be read back is read back,** as what it is: as an expression if it is a value, as a
statement, and as a step of a pipeline. The induction is on the tree, and each case is a lemma about one
rule. -/
theorem reads (h : n.Readable) : n.Reads := by
  induction h with
  | @intro n here below ih =>
    have hf : Everywhere FitsHere n := Readable.fits (.intro here below)
    -- Of the nodes below, each is read back as what it is used as: as an expression where a value
    -- stands, and as a statement in a body.
    have values : ∀ m ∈ n.children, m.isValue = true → m.ReadsValue :=
      fun m hm hv => (ih m hm).value hv
    have expressions : ∀ m ∈ n.children, m.isValue = true → m.ReadsExpression :=
      fun m hm hv => (values m hm hv).expression
    have items : (∀ m ∈ n.children, m.isValue = true) →
        ∀ m ∈ n.children, Everywhere FitsHere m ∧ m.isValue = true ∧ m.ReadsExpression :=
      fun hv m hm => ⟨hf.child m hm, hv m hm, expressions m hm (hv m hm)⟩
    have body : (∀ m ∈ n.children, m.isStatement = true) →
        ∀ m ∈ n.children, m.isStatement = true ∧ m.FitsHere ∧ m.ReadsStatement :=
      fun hs m hm => ⟨hs m hm, (hf.child m hm).here, (ih m hm).statement (hs m hm)⟩
    cases n with
    | assign target value style =>
      by_cases hst : style = .flag
      · subst hst
        exact reads_of_statement rfl rfl (readsStatement_of_named (readsNamed_flag here.1))
      · have hn : (assign target value style).ReadsNamed :=
          readsNamed_assign hst (expressions value (by simp [children]) here.1.1)
        exact {
          value := fun hv => absurd hv (by simp [isValue])
          statement := fun _ => readsStatement_of_named hn
          step := fun _ => .inr (.inr ⟨target, value, style, rfl, hst, hn⟩) }
    | assignEach pairs =>
      refine reads_of_statement rfl rfl (readsStatement_of_named (readsNamed_assignEach here.1 ?_))
      exact fun p hp => expressions p.2 (List.mem_map_of_mem hp) (here.1.2 p hp)
    | destructure targets source =>
      refine reads_of_statement rfl rfl (readsStatement_of_named (readsNamed_destructure here.1 ?_))
      exact expressions source (by simp [children]) here.1.2
    | block kind label statements pos =>
      exact reads_of_statement rfl rfl (readsStatement_of_named
        (readsNamed_block here.2 (body here.1.1) here.1.2 id))
    | container kind statements pos =>
      exact reads_of_statement rfl rfl (readsStatement_of_named
        (readsNamed_block here.2 (body here.1.1) here.1.2 id))
    | arrow relation source target properties pos =>
      -- An arrow may be a step of a pipeline, too, and so may an assignment.
      have hread := body here.1
      exact {
        value := fun hv => absurd hv (by simp [isValue])
        statement := fun _ => readsStatement_arrow here.2 hread
        step := fun _ => .inr (.inl ⟨relation, source, target, properties, pos, rfl, here.2, hread⟩) }
    | map entries | combinedMap entries =>
      exact reads_of_operand hf rfl rfl rfl
        (readsOperand_entries here.2 (body here.1.1) here.1.2 id)
    | list entries => exact reads_of_operand hf rfl rfl rfl (readsOperand_list (items here.1))
    | literal v => exact reads_of_operand hf rfl rfl rfl (readsOperand_literal v)
    | ident name => exact reads_of_operand hf rfl rfl rfl (readsOperand_ident name)
    | member left name =>
      exact reads_of_value rfl (readsValue_member hf (values left (by simp [children]) here.1.1))
    | binary op left right =>
      exact reads_of_value rfl (readsValue_binary hf (values left (by simp [children]) here.1.1)
        (values right (by simp [children]) here.1.2.1))
    | unary op operand =>
      exact reads_of_value rfl (readsValue_unary hf (values operand (by simp [children]) here.1.1))
    | ternary condition yes no =>
      exact reads_of_value rfl (readsValue_ternary hf
        (values condition (by simp [children]) here.1.1) (values yes (by simp [children]) here.1.2.1)
        (values no (by simp [children]) here.1.2.2.1))
    | group inner =>
      exact reads_of_operand hf rfl rfl rfl
        (readsOperand_group (expressions inner (by simp [children]) here.1))
    | call name args pos =>
      exact reads_of_operand hf rfl rfl rfl (readsOperand_call (items here.1))
    | envRef name default => exact reads_of_operand hf rfl rfl rfl (readsOperand_envRef name default)
    | inclusion target pos =>
      exact reads_of_directive hf rfl rfl rfl
        (readsDirective_inclusion (expressions target (by simp [children]) here.1))
    | comment text =>
      exact {
        value := fun hv => absurd hv (by simp [isValue])
        statement := fun _ => readsStatement_comment text
        step := fun _ => .inl ⟨text, rfl⟩ }
    | control branches =>
      refine reads_of_statement rfl rfl (readsStatement_control here.1 fun b hb => ?_)
      have hlink := here.1.2.of_mem hb
      have hmem : ∀ m ∈ b.condition.toList ++ b.body, m ∈ (control branches).children :=
        fun m hm => List.mem_flatMap.2 ⟨b, hb, hm⟩
      refine ⟨fun c hc => ?_, here.2 b hb, fun m hm => ?_⟩
      · have hc' := hmem c (List.mem_append_left _ (Option.mem_toList.2 hc))
        exact ⟨hf.child c hc', hlink.1 c hc, expressions c hc' (hlink.1 c hc)⟩
      · have hm' := hmem m (List.mem_append_right _ hm)
        exact ⟨hlink.2 m hm, (hf.child m hm').here, (ih m hm').statement (hlink.2 m hm)⟩
    | pipeline steps pos =>
      refine reads_of_directive hf rfl rfl rfl (readsDirective_pipeline ?_ ?_)
      · exact fun m hm => ⟨here.1 m hm, (hf.child m hm).here⟩
      · exact fun m hm => (ih m hm).step (here.1 m hm)
    | exec cmd args dir pos =>
      refine reads_of_directive hf rfl rfl rfl (readsDirective_exec ?_ ?_ ?_)
      · exact expressions cmd (by simp [children]) here.1.1
      · exact fun m hm => expressions m (by simp [children, Option.mem_def.1 hm]) (here.1.2.1 m hm)
      · exact fun m hm => expressions m (by simp [children, Option.mem_def.1 hm]) (here.1.2.2 m hm)
    | extract source index => exact absurd here.1 id

/-! ## 2. Whole texts -/

/-- **The tokens of a list of statements are read as a document of these statements.** Behind each statement
stands the next one or the end of input, and as no statement can take these in, it ends there. -/
theorem reads_document {ns : List Node} (hap : Apart ns)
    (h : ∀ m ∈ ns, m.isStatement = true ∧ m.Readable) {ts : List Token} {f : Nat} (line : Nat)
    (e : Token) (hs : SpellsStatements Token.SameLine ns ts) (he : e.kind = .eof)
    (hb : 10 * ts.length + 10 ≤ f) :
    ∃ ns', unplacedAll ns' = unplacedAll ns ∧
      (Rule.document f).Gives ⟨line, ts ++ [e]⟩ ns' ⟨endLine line ts, [e]⟩ := by
  induction ns generalizing ts f line with
  | nil =>
    obtain rfl : ts = [] := hs
    obtain ⟨f, rfl⟩ := Nat.exists_eq_succ_of_ne_zero (n := f) (by omega)
    refine ⟨[], rfl, (Rule.gives_document _ _ _ _).2 (.inl ?_)⟩
    rw [List.nil_append, Cursor.skipSeparators_of_not (by simp [he])]
    exact ⟨he, rfl, rfl⟩
  | cons n ns ih =>
    obtain ⟨a, b, rfl, ha, hsb, hl⟩ := hs
    obtain ⟨hk, hr⟩ := h n (by simp)
    have hst : ∀ m ∈ ns, m.isStatement = true ∧ m.FitsHere :=
      fun m hm => ⟨(h m (by simp [hm])).1, (h m (by simp [hm])).2.fits.here⟩
    simp only [List.length_append] at hb
    obtain ⟨f, rfl⟩ := Nat.exists_eq_succ_of_ne_zero (n := f) (by omega)
    obtain ⟨x, rest, rfl, hx, -⟩ := head_of_spells_statement hk hr.fits.here ha
    obtain ⟨y, ys, hy, hbound⟩ := boundary_of_spells hap hst (by simp) hsb hl (.inr he) line []
    simp only [List.length_cons] at hb
    obtain ⟨n', hn', hg⟩ := (reads hr).statement hk line y ys (f := f) ha
      (by simp only [List.length_cons]; omega) hbound
    have hap' : Apart ns := by
      cases ns with
      | nil => trivial
      | cons m ns => exact hap.2
    obtain ⟨ns', hns', hgs⟩ := ih hap' (fun m hm => h m (by simp [hm])) (f := f)
      (endLine line (x :: rest)) hsb (by omega)
    refine ⟨n' :: ns', by simp [unplacedAll, hn', hns'], (Rule.gives_document _ _ _ _).2 (.inr ?_)⟩
    -- A statement begins with no separator and is not the end of input.
    have hfirst : (x.kind ≠ .semicolon ∧ x.kind ≠ .comma) ∧ x.kind ≠ .eof := by
      revert hx
      cases x.kind <;> decide
    rw [List.append_assoc, List.cons_append, Cursor.skipSeparators_of_not hfirst.1]
    refine ⟨hfirst.2, n', _, ns', ?_, by simpa using hgs, rfl⟩
    rw [hy]
    exact hg

/-- **The tokens of a value are read as an expression that stands alone.** The end of input is behind them,
where every expression may end. -/
theorem reads_loneExpression (hv : n.isValue = true) (h : n.Readable) {ts : List Token} {f : Nat}
    (line : Nat) (e : Token) (hs : n.Spells Token.SameLine ts) (he : e.kind = .eof)
    (hb : 10 * ts.length + 9 ≤ f) :
    ∃ n', n'.unplaced = n.unplaced ∧
      (Rule.loneExpression f).Gives ⟨line, ts ++ [e]⟩ n' ⟨endLine line ts, [e]⟩ := by
  obtain ⟨n', hn', hg⟩ := ((reads h).value hv).expression line e [] hs hb
    (admits_of_isQuiet (by rw [he]; rfl))
  refine ⟨n', hn', (Rule.gives_loneExpression _ _ _ _).2 ⟨_, hg, ?_⟩⟩
  rw [Cursor.skipComments_of_not (by simp [he])]
  exact ⟨he, rfl⟩

end Node

end BlockConfig
