import BlockConfig.Proofs.Grammar.ReadingValues

/-!
Spelled statements and documents are read back.

The tokens of a statement are read as that statement up to its positions if the next statement
begins on another line (`Boundary`). There is one more thing that can go wrong between statements,
and only there: a flag with the name of a relation is taken for the relation of an arrow behind it
that has none, wherever the line ends. `Apart` says of a list of statements that this happens nowhere
in it.

As with values, each kind of statement has a lemma that supposes of the nodes below what it needs.
-/

set_option autoImplicit false

namespace BlockConfig

/-! ## 1. What may follow a statement -/

/-- Behind a statement: the next statement, on a line of its own, or the end of all statements. -/
structure Boundary (n : Node) (line : Nat) (u : Token) (us : List Token) : Prop where
  kind : u.kind.startsStatement = true ∨ u.kind = .rbrace ∨ u.kind = .eof
  apart : u.isName = true → u.pos.line ≠ line
  noElse : Rule.elseAhead ⟨line, u :: us⟩ = false
  /-- A flag that is named like a relation must not become the relation of an arrow. -/
  noArrow : ∀ target value, n = .assign target value .flag → Relation.ofName? target.name ≠ none →
    ¬(u.isName = true ∧ (Cursor.peekAt ⟨line, u :: us⟩ 1).kind = .arrow)

/-- At the end of a statement any expression may end: a word that follows is on another line, and the other
tokens that may follow pull at nothing. -/
theorem Boundary.admits {n : Node} {line : Nat} {u : Token} {us : List Token}
    (h : Boundary n line u us) (grip : Nat) : Admits grip line u us := by
  by_cases hi : u.kind = .ident
  · have hl : u.pos.line ≠ line := h.apart (by simp [Token.isName, hi])
    refine ⟨by simp [hi], ?_⟩
    simp [Cursor.pull, Cursor.operator?, hi, hl]
  · refine admits_of_isQuiet ?_
    rcases h.kind with hk | hk | hk
    · revert hk hi
      cases u.kind <;> decide
    · rw [hk]
      rfl
    · rw [hk]
      rfl

/-- A flag that is named like a relation. -/
def Node.isRelationFlag : Node → Bool
  | .assign target _ .flag => (Relation.ofName? target.name).isSome
  | _ => false

/-- An arrow that names no relation. -/
def Node.isBareArrow : Node → Bool
  | .arrow none .. => true
  | _ => false

/-- Statements of which none is a flag that the next one would take for its relation. -/
def Apart : List Node → Prop
  | n :: m :: ns => ¬(n.isRelationFlag = true ∧ m.isBareArrow = true) ∧ Apart (m :: ns)
  | _ => True

namespace Node

/-- The bodies of a node keep flags and arrows apart. -/
def ApartHere : Node → Prop
  | block _ _ body _ | container _ body _ | arrow _ _ _ body _ | map body | combinedMap body =>
    Apart body
  | control branches => ∀ b ∈ branches, Apart b.body
  | _ => True

/-- What a node has to be like so that its tokens are read back. -/
def ReadableHere (n : Node) : Prop :=
  n.FitsHere ∧ n.ApartHere

/-- A tree whose tokens are read back. -/
def Readable (n : Node) : Prop :=
  Everywhere ReadableHere n

theorem Readable.fits {n : Node} (h : n.Readable) : Everywhere FitsHere n :=
  h.mono fun _ => And.left

/-- A statement is read back. -/
def ReadsStatement (n : Node) : Prop :=
  ∀ {ts : List Token} {f : Nat} (line : Nat) (u : Token) (us : List Token),
    n.Spells Token.SameLine ts → 10 * ts.length + 9 ≤ f → Boundary n (endLine line ts) u us →
    ∃ n', n'.unplaced = n.unplaced ∧
      (Rule.statement f).Gives ⟨line, ts ++ u :: us⟩ n' ⟨endLine line ts, u :: us⟩

/-! ## 2. Bodies -/

/-- Behind the first of several targets stands a comma. -/
theorem second_of_spellsNames {names : List String} {front : List Token}
    (hn : SpellsNames names front) (h2 : 2 ≤ names.length) :
    ∃ t comma rest, front = t :: comma :: rest ∧ t.kind = .ident ∧ comma.kind = .comma := by
  cases names with
  | nil => simp at h2
  | cons first names =>
    cases names with
    | nil => simp at h2
    | cons second names =>
      obtain ⟨t, comma, rest, rfl, ht, hc, -⟩ := hn
      exact ⟨t, comma, rest, rfl, ht.1, hc⟩

/-- A statement whose second token is an arrow, or that has one token with an arrow behind it, is an
arrow without a relation. -/
theorem isBareArrow_of_spells {near : Token → Token → Prop} {n : Node}
    (hk : n.isStatement = true) (hf : n.FitsHere) {a rest : List Token} (hs : n.Spells near a)
    {x y : Token} {ts : List Token} (he : a ++ rest = x :: y :: ts) (hx : x.isName = true)
    (hy : y.kind = .arrow) (hrest : ∀ z ∈ rest.head?, z.kind ≠ .arrow) : n.isBareArrow = true := by
  -- Two spellings leave no room for an arrow in the second place: one token with none behind it, and a
  -- list of names, where a comma stands there.
  have single : ∀ t : Token, ¬[t] ++ rest = x :: y :: ts := by
    intro t ht
    simp only [List.singleton_append, List.cons.injEq] at ht
    exact hrest y (by simp [ht.2]) hy
  have names : ∀ {ns : List String} {front : List Token} {back : List Token},
      SpellsNames ns front → 2 ≤ ns.length → ¬front ++ back = x :: y :: ts := by
    intro ns front back hn hl ht
    obtain ⟨t, comma, r, rfl, -, hc⟩ := second_of_spellsNames hn hl
    simp only [List.cons_append, List.cons.injEq] at ht
    simp [← ht.2.1, hc] at hy
  cases n with
  | assign target value style =>
    cases style with
    | flag =>
      obtain ⟨t, rfl, -⟩ := hs
      exact absurd he (single t)
    | colon | equals =>
      obtain ⟨t, sign, b, rfl, -, hsign, -⟩ := hs
      simp only [List.cons_append, List.cons.injEq] at he
      simp [← he.2.1, hsign] at hy
  | assignEach pairs =>
    obtain ⟨front, sign, values, rfl, hn, -⟩ := hs
    rw [List.append_assoc] at he
    exact absurd he (names hn (by simpa using hf.1))
  | destructure targets source =>
    obtain ⟨front, sign, b, rfl, hn, -⟩ := hs
    rw [List.append_assoc] at he
    exact absurd he (names hn (by simpa using hf.1))
  | block kind label body pos =>
    cases label with
    | none =>
      obtain ⟨t, l, b, r, rfl, -, hl, -⟩ := hs
      simp only [List.cons_append, List.cons.injEq] at he
      simp [← he.2.1, hl] at hy
    | some label =>
      obtain ⟨t, v, l, b, r, rfl, -, hv, -⟩ := hs
      simp only [List.cons_append, List.cons.injEq] at he
      have hv := hv.1
      simp [Token.isName, he.2.1, hy] at hv
  | container kind body pos =>
    obtain ⟨t, l, b, r, rfl, -, hl, -⟩ := hs
    simp only [List.cons_append, List.cons.injEq] at he
    simp [← he.2.1, hl] at hy
  | arrow relation source target body pos =>
    cases relation with
    | none => rfl
    | some r =>
      obtain ⟨front, v, sign, t, properties, rfl, ⟨w, rfl, -⟩, hv, -⟩ := hs
      simp only [List.nil_append, List.cons_append, List.cons.injEq] at he
      have hv := hv.1
      simp [Token.isName, he.2.1, hy] at hv
  | comment text =>
    obtain ⟨t, rfl, -⟩ := hs
    exact absurd he (single t)
  | inclusion target pos =>
    obtain ⟨sign, word, b, rfl, hsign, -⟩ := hs
    simp only [List.cons_append, List.cons.injEq] at he
    simp [Token.isName, ← he.1, hsign] at hx
  | pipeline body pos =>
    obtain ⟨sign, word, l, b, r, rfl, hsign, -⟩ := hs
    simp only [List.cons_append, List.cons.injEq] at he
    simp [Token.isName, ← he.1, hsign] at hx
  | exec cmd args dir pos =>
    obtain ⟨sign, word, l, key, eq, b, c, d, r, rfl, hsign, -⟩ := hs
    simp only [List.cons_append, List.cons.injEq] at he
    simp [Token.isName, ← he.1, hsign] at hx
  | control branches =>
    obtain ⟨b, hb, hc⟩ := hf.1
    cases branches with
    | nil => cases hb
    | cons first bs =>
      obtain ⟨condition, body, pos⟩ := first
      cases condition with
      | some condition =>
        obtain ⟨word, l, b, r, l', d, r', rest', rfl, hw, -⟩ := hs
        simp only [List.cons_append, List.cons.injEq] at he
        simp [Token.isName, ← he.1, hw] at hx
      | none =>
        obtain rfl := Option.some.inj hb
        exact absurd hc (by simp)
  | _ => exact absurd hk (by simp [isStatement])

/-- Statements and comments in front of the end of a body hide no `ELSE`. -/
theorem elseAhead_of_spells {near : Token → Token → Prop} {ns : List Node}
    (hst : ∀ m ∈ ns, m.isStatement = true ∧ m.FitsHere) {b : List Token}
    (hs : SpellsStatements near ns b) {r : Token} (hr : r.kind = .rbrace ∨ r.kind = .eof)
    (line : Nat) (us : List Token) : Rule.elseAhead ⟨line, b ++ r :: us⟩ = false := by
  induction ns generalizing b with
  | nil =>
    obtain rfl : b = [] := hs
    rcases hr with hr | hr <;> simp [Rule.elseAhead, hr]
  | cons n ns ih =>
    obtain ⟨a, b, rfl, ha, hb, -⟩ := hs
    obtain ⟨hk, hf⟩ := hst n (by simp)
    obtain ⟨x, rest, rfl, hx, hc⟩ := head_of_spells_statement hk hf ha
    by_cases hxc : x.kind = .comment
    · obtain rfl := hc hxc
      have := ih (fun m hm => hst m (by simp [hm])) hb
      simpa [Rule.elseAhead, hxc] using this
    · have hx : x.kind ≠ .elseIfWord ∧ x.kind ≠ .elseWord := by
        revert hx
        cases x.kind <;> decide
      simp [Rule.elseAhead, hxc, hx]

/-- What stands between a statement and the next one, or the end of the body, lets go of it. -/
theorem boundary_of_spells {n : Node} {ns : List Node} (hap : Apart (n :: ns))
    (hst : ∀ m ∈ ns, m.isStatement = true ∧ m.FitsHere) {a b : List Token}
    (ha : 0 < a.length) (hs : SpellsStatements Token.SameLine ns b)
    (hl : ∀ x ∈ a.getLast?, ∀ y ∈ b.head?, ¬Token.SameLine x y) {r : Token}
    (hr : r.kind = .rbrace ∨ r.kind = .eof) (line : Nat) (us : List Token) :
    ∃ y ys, b ++ r :: us = y :: ys ∧ Boundary n (endLine line a) y ys := by
  have helse := elseAhead_of_spells hst hs hr (endLine line a) us
  obtain ⟨z, hz⟩ : ∃ z, a.getLast? = some z :=
    ⟨_, List.getLast?_eq_some_getLast (List.ne_nil_of_length_pos ha)⟩
  cases ns with
  | nil =>
    obtain rfl : b = [] := hs
    have hn : r.isName = false := by rcases hr with hr | hr <;> simp [Token.isName, hr]
    exact ⟨r, us, rfl, .inr hr, by simp [hn], helse, by simp [hn]⟩
  | cons m ns =>
    obtain ⟨b, c, rfl, hb, hc, -⟩ := hs
    obtain ⟨hk, hf⟩ := hst m (by simp)
    obtain ⟨x, rest, rfl, hx, -⟩ := head_of_spells_statement hk hf hb
    refine ⟨x, rest ++ (c ++ r :: us), by simp, .inl hx, ?_, by simpa using helse, ?_⟩
    · intro _
      rw [endLine_of_getLast? hz]
      exact hl z hz x (by simp)
    · rintro target value rfl hrel ⟨hname, harrow⟩
      refine hap.1 ⟨?_, ?_⟩
      · simpa [isRelationFlag, Option.isSome_iff_ne_none] using hrel
      · have hrest : ∀ z ∈ (c ++ r :: us).head?, z.kind ≠ .arrow := by
          intro z hz
          cases ns with
          | nil =>
            obtain rfl : c = [] := hc
            obtain rfl : r = z := by simpa using hz
            rcases hr with hr | hr <;> simp [hr]
          | cons k ns =>
            obtain ⟨c, d, rfl, hc, -⟩ := hc
            obtain ⟨hk, hf⟩ := hst k (by simp)
            obtain ⟨w, front, rfl, hw, -⟩ := head_of_spells_statement hk hf hc
            obtain rfl : w = z := by simpa using hz
            intro hwa
            rw [hwa] at hw
            exact absurd hw (by decide)
        cases rest with
        | nil =>
          -- The statement behind the flag is one token, so the arrow would stand behind it.
          cases hcr : c ++ r :: us with
          | nil => simp at hcr
          | cons w ws =>
            rw [hcr] at harrow hrest
            exact absurd harrow (hrest w rfl)
        | cons y ys =>
          exact isBareArrow_of_spells hk hf hb rfl hname harrow hrest

/-- Statements in braces are read back one after the other. Between two of them the boundary comes from the
tokens of the second, and at the end from the closing brace; that no flag is taken for a relation is what
being apart says. -/
theorem reads_bodyItems (context : String) {ns : List Node} (hap : Apart ns)
    (ih : ∀ m ∈ ns, m.isStatement = true ∧ m.FitsHere ∧ m.ReadsStatement) {ts : List Token}
    {f : Nat} (line : Nat) (r u : Token) (us : List Token)
    (hs : SpellsStatements Token.SameLine ns ts) (hr : r.kind = .rbrace)
    (hb : 10 * ts.length + 10 ≤ f) :
    ∃ ns', unplacedAll ns' = unplacedAll ns ∧ (Rule.bodyItems f context).Gives
      ⟨line, ts ++ r :: u :: us⟩ ns' ⟨r.pos.line, u :: us⟩ := by
  induction ns generalizing ts f line with
  | nil =>
    obtain rfl : ts = [] := hs
    obtain ⟨f, rfl⟩ := Nat.exists_eq_succ_of_ne_zero (n := f) (by omega)
    refine ⟨[], rfl, (Rule.gives_bodyItems _ _ _ _ _).2 (.inl ?_)⟩
    rw [List.nil_append, Cursor.skipSeparators_of_not (by simp [hr])]
    exact ⟨hr, rfl, rfl⟩
  | cons n ns ihs =>
    obtain ⟨a, b, rfl, ha, hsb, hl⟩ := hs
    obtain ⟨hk, hf, hread⟩ := ih n (by simp)
    have hst : ∀ m ∈ ns, m.isStatement = true ∧ m.FitsHere :=
      fun m hm => ⟨(ih m (by simp [hm])).1, (ih m (by simp [hm])).2.1⟩
    simp only [List.length_append] at hb
    obtain ⟨f, rfl⟩ := Nat.exists_eq_succ_of_ne_zero (n := f) (by omega)
    obtain ⟨x, rest, rfl, hx, -⟩ := head_of_spells_statement hk hf ha
    obtain ⟨y, ys, hy, hbound⟩ := boundary_of_spells hap hst (by simp) hsb hl (.inl hr) line (u :: us)
    obtain ⟨n', hn', hg⟩ := hread line y ys (f := f) ha
      (by simp only [List.length_cons] at hb ⊢; omega) hbound
    have hap' : Apart ns := by
      cases ns with
      | nil => trivial
      | cons m ns => exact hap.2
    obtain ⟨ns', hns', hgs⟩ := ihs hap' (fun m hm => ih m (by simp [hm])) (f := f)
      (endLine line (x :: rest)) hsb (by simp only [List.length_cons] at hb; omega)
    refine ⟨n' :: ns', by simp [unplacedAll, hn', hns'], (Rule.gives_bodyItems _ _ _ _ _).2 (.inr ?_)⟩
    -- A statement begins with no separator and does not end the body.
    have hfirst : (x.kind ≠ .semicolon ∧ x.kind ≠ .comma) ∧ x.kind ≠ .rbrace ∧ x.kind ≠ .eof := by
      revert hx
      cases x.kind <;> decide
    rw [List.append_assoc, List.cons_append, Cursor.skipSeparators_of_not hfirst.1]
    refine ⟨hfirst.2.1, hfirst.2.2, n', _, ns', ?_, hgs, rfl⟩
    rw [hy]
    exact hg

/-- A body is read back with its braces. -/
theorem reads_body (context : String) {ns : List Node} (hap : Apart ns)
    (ih : ∀ m ∈ ns, m.isStatement = true ∧ m.FitsHere ∧ m.ReadsStatement) {ts : List Token}
    {f : Nat} (line : Nat) (l r u : Token) (us : List Token) (hl : l.kind = .lbrace)
    (hs : SpellsStatements Token.SameLine ns ts) (hr : r.kind = .rbrace)
    (hb : 10 * ts.length + 11 ≤ f) :
    ∃ ns', unplacedAll ns' = unplacedAll ns ∧ (Rule.body f context).Gives
      ⟨line, l :: (ts ++ r :: u :: us)⟩ ns' ⟨r.pos.line, u :: us⟩ := by
  obtain ⟨f, rfl⟩ := Nat.exists_eq_succ_of_ne_zero (n := f) (by omega)
  obtain ⟨ns', hns', hg⟩ := reads_bodyItems context hap ih l.pos.line r u us (f := f) hs hr (by omega)
  refine ⟨ns', hns', (Rule.gives_body _ _ _ _ _).2 ⟨hl, ?_⟩⟩
  rw [Cursor.skip_append_cons]
  exact hg

/-! ## 3. Values that hold statements -/

/-- Statements in braces that stand as a value are read back as what they make. -/
theorem readsOperand_entries {ns : List Node} (hap : Apart ns)
    (ih : ∀ m ∈ ns, m.isStatement = true ∧ m.FitsHere ∧ m.ReadsStatement) {n : Node}
    (hn : ofEntries ns = n)
    (hs : ∀ {ts : List Token}, n.Spells Token.SameLine ts → ∃ l b r, ts = l :: (b ++ [r]) ∧
      l.kind = .lbrace ∧ SpellsStatements Token.SameLine ns b ∧ r.kind = .rbrace) :
    n.ReadsOperand := by
  intro ts f line u us hspell hb _
  obtain ⟨l, b, r, rfl, hl, hsb, hr⟩ := hs hspell
  simp only [List.length_append, List.length_cons, List.length_nil] at hb
  obtain ⟨f, rfl⟩ := Nat.exists_eq_succ_of_ne_zero (n := f) (by omega)
  obtain ⟨ns', hns', hg⟩ := reads_body "for map literal" hap ih line l r u us (f := f) hl hsb hr
    (by omega)
  refine ⟨ofEntries ns', ?_, (Rule.gives_primary _ _ _ _).2 ?_⟩
  · rw [← hn, unplaced_ofEntries, unplaced_ofEntries, hns']
  · have ho := Rule.Operand.entries (n := f) (c := ⟨line, l :: (b ++ r :: u :: us)⟩) hl hg
    simpa using ho

/-- The three directives are read back by a rule of their own. -/
def ReadsDirective (n : Node) : Prop :=
  ∀ {ts : List Token} {f : Nat} (line : Nat) (u : Token) (us : List Token),
    n.Spells Token.SameLine ts → 10 * ts.length + 5 ≤ f → Admits n.grip (endLine line ts) u us →
    (∃ t rest, ts = t :: rest ∧ t.kind = .atSign) ∧ ∃ n', n'.unplaced = n.unplaced ∧
      (Rule.directive f).Gives ⟨line, ts ++ u :: us⟩ n' ⟨endLine line ts, u :: us⟩

/-- A directive is read back where an operand is looked for, since its sign stands for nothing else
there. -/
theorem readsOperand_of_directive {n : Node} (h : n.ReadsDirective) : n.ReadsOperand := by
  intro ts f line u us hs hb ha
  obtain ⟨f, rfl⟩ := Nat.exists_eq_succ_of_ne_zero (n := f) (by omega)
  obtain ⟨⟨t, rest, rfl, ht⟩, n', hn', hg⟩ := h line u us (f := f) hs (by omega) ha
  exact ⟨n', hn', (Rule.gives_primary _ _ _ _).2 (.directive ht hg)⟩

/-- It is also read back where a statement is looked for. -/
theorem readsStatement_of_directive {n : Node} (h : n.ReadsDirective) : n.ReadsStatement := by
  intro ts f line u us hs hb ha
  obtain ⟨f, rfl⟩ := Nat.exists_eq_succ_of_ne_zero (n := f) (by omega)
  obtain ⟨⟨t, rest, rfl, ht⟩, n', hn', hg⟩ := h line u us (f := f) hs (by omega) (ha.admits _)
  exact ⟨n', hn', (Rule.gives_statement _ _ _ _).2 (.directive ht hg)⟩

/-- An inclusion is read back if its target is. Nothing closes it, so its end is that of the target. -/
theorem readsDirective_inclusion {target : Node} {pos : Position} (h : target.ReadsExpression) :
    (inclusion target pos).ReadsDirective := by
  intro ts f line u us hs hb ha
  obtain ⟨sign, word, a, rfl, hsign, hw, hs⟩ := hs
  simp only [List.length_cons] at hb
  obtain ⟨f, rfl⟩ := Nat.exists_eq_succ_of_ne_zero (n := f) (by omega)
  obtain ⟨target', hn', hg⟩ := h word.pos.line u us (f := f) hs (by omega) ha
  refine ⟨⟨sign, _, rfl, hsign⟩, .inclusion target' sign.pos, by simp [unplaced, hn'],
    (Rule.gives_directive _ _ _ _).2 ⟨hsign, hw.1, ?_⟩⟩
  exact Rule.Directive.inclusion (c := ⟨line, sign :: word :: (a ++ u :: us)⟩) hw.2
    (by simpa using hg)

/-! ## 4. Statements that begin with a name -/

/-- A statement that is no arrow is read back by the rule for what begins with a name. -/
def ReadsNamed (n : Node) : Prop :=
  ∀ {ts : List Token} {f : Nat} (line : Nat) (u : Token) (us : List Token),
    n.Spells Token.SameLine ts → 10 * ts.length + 8 ≤ f → Boundary n (endLine line ts) u us →
    (Cursor.peekAt ⟨line, ts ++ u :: us⟩ 0).isName = true ∧
      Rule.arrowAhead? ⟨line, ts ++ u :: us⟩ = none ∧ ∃ n', n'.unplaced = n.unplaced ∧
        (Rule.blockOrAssignment f).Gives ⟨line, ts ++ u :: us⟩ n' ⟨endLine line ts, u :: us⟩

/-- What is read back by the rule for names is read back as a statement, for that rule is tried whenever no
arrow is ahead. -/
theorem readsStatement_of_named {n : Node} (h : n.ReadsNamed) : n.ReadsStatement := by
  intro ts f line u us hs hb hbound
  obtain ⟨f, rfl⟩ := Nat.exists_eq_succ_of_ne_zero (n := f) (by omega)
  obtain ⟨hk, ha, n', hn', hg⟩ := h line u us (f := f) hs (by omega) hbound
  exact ⟨n', hn', (Rule.gives_statement _ _ _ _).2 (.named hk ha hg)⟩

/-- No arrow is ahead if the sign of an arrow stands in neither of the two places where it would have to. -/
theorem arrowAhead?_eq_none {line : Nat} {t u : Token} {us : List Token} (hu : u.kind ≠ .arrow)
    (h : u.isName = true → (Cursor.peekAt ⟨line, t :: u :: us⟩ 2).kind ≠ .arrow) :
    Rule.arrowAhead? ⟨line, t :: u :: us⟩ = none := by
  have htyped : ¬(t.kind = .ident ∧ u.isName = true ∧
      (Cursor.peekAt ⟨line, t :: u :: us⟩ 2).kind = .arrow) := fun h' => h h'.2.1 h'.2.2
  simp [Rule.arrowAhead?, htyped, hu]

/-- A flag is a name with nothing behind it on its line. What follows is no equals sign, no brace and, being
on another line, no label either. -/
theorem readsNamed_flag {target : Target} {value : Node}
    (hf : (assign target value .flag).FitsHere) : (assign target value .flag).ReadsNamed := by
  intro ts f line u us hs hb hbound
  obtain ⟨t, rfl, ht⟩ := hs
  obtain ⟨f, rfl⟩ := Nat.exists_eq_succ_of_ne_zero (n := f) (by omega)
  have hq : u.kind ≠ .arrow ∧ u.kind ≠ .lbrace ∧ u.kind ≠ .assign ∧ u.kind ≠ .colon ∧
      u.kind ≠ .comma := by
    have hk := hbound.kind
    revert hk
    cases u.kind <;> decide
  have ha : Rule.arrowAhead? ⟨line, t :: u :: us⟩ = none := by
    by_cases hr : Relation.ofName? target.name = none
    · simp [Rule.arrowAhead?, ht.1, ht.2, hr, hq]
    · refine arrowAhead?_eq_none hq.1 fun hu harrow => ?_
      exact hbound.noArrow target value rfl hr ⟨hu, harrow⟩
  refine ⟨ht.names.1, ha, assign ⟨t.literal, t.pos⟩ (literal (.bool true)) .flag, ?_,
    (Rule.gives_blockOrAssignment _ _ _ _).2 ?_⟩
  · simp [unplaced, ht.2, hf.2 rfl]
  · refine Rule.Named.flag (c := ⟨line, t :: u :: us⟩) ht.1 hq.2.1 (fun h => ?_) ?_ ?_
    · exact hbound.apart h.1 h.2.1
    · exact fun h => h.elim hq.2.2.1 hq.2.2.2.1
    · simp [Rule.targetList?, ht.1, hq]

/-- An assignment to one name is read back with its value, in both styles. -/
theorem readsNamed_assign {target : Target} {value : Node} {style : AssignStyle}
    (hst : style ≠ .flag) (h : value.ReadsExpression) :
    (assign target value style).ReadsNamed := by
  intro ts f line u us hs hb hbound
  obtain ⟨t, sign, a, rfl, ht, hsign, hsa⟩ : ∃ t sign a, ts = t :: sign :: a ∧
      t.Names target.name ∧
      sign.kind = (if style = .colon then .colon else .assign) ∧
      value.Spells Token.SameLine a := by
    cases style with
    | flag => exact absurd rfl hst
    | colon | equals => exact hs
  simp only [List.length_cons] at hb
  obtain ⟨f, rfl⟩ := Nat.exists_eq_succ_of_ne_zero (n := f) (by omega)
  obtain ⟨value', hn', hg⟩ := h sign.pos.line u us (f := f) hsa (by omega) (hbound.admits 0)
  have hk : sign.kind = .assign ∨ sign.kind = .colon := by
    rw [hsign]
    split
    · exact .inr rfl
    · exact .inl rfl
  refine ⟨ht.1, ?_, assign ⟨t.literal, t.pos⟩ value' (if sign.kind = .colon then .colon else .equals),
    ?_, (Rule.gives_blockOrAssignment _ _ _ _).2 ?_⟩
  · refine arrowAhead?_eq_none ?_ ?_
    · rcases hk with hk | hk <;> simp [hk]
    · rcases hk with hk | hk <;> simp [Token.isName, hk]
  · cases style with
    | flag => exact absurd rfl hst
    | colon | equals => simp [unplaced, ht.2, hn', hsign]
  · exact Rule.Named.assign (c := ⟨line, t :: sign :: (a ++ u :: us)⟩) hk (by simpa using hg)

/-- A block is read back with its kind, its label and its body. Whether it is a container depends on the
label only, which is why both are treated as one here. -/
theorem readsNamed_block {kind : String} {label : Option String} {body : List Node}
    (hap : Apart body) (ih : ∀ m ∈ body, m.isStatement = true ∧ m.FitsHere ∧ m.ReadsStatement)
    {n : Node} {pos : Position} (hn : ofBlock kind label body pos = n)
    (hs : ∀ {ts : List Token}, n.Spells Token.SameLine ts →
      (block kind label body pos).Spells Token.SameLine ts) :
    n.ReadsNamed := by
  -- The position of the block is its first token's and the body has positions of its own, so the trees
  -- are compared without any.
  have unplaced' : ∀ {body' : List Node} {pos' : Position}, unplacedAll body' = unplacedAll body →
      (ofBlock kind label body' pos').unplaced = n.unplaced := by
    intro body' pos' hb
    rw [← hn, unplaced_ofBlock, unplaced_ofBlock, hb]
  intro ts f line u us hspell hb hbound
  cases label with
  | none =>
    obtain ⟨t, l, b, r, rfl, ht, hl, hsb, hr⟩ := hs hspell
    simp only [List.length_append, List.length_cons, List.length_nil] at hb
    obtain ⟨f, rfl⟩ := Nat.exists_eq_succ_of_ne_zero (n := f) (by omega)
    obtain ⟨body', hb', hg⟩ := reads_body "for block body" hap ih t.pos.line l r u us (f := f) hl hsb
      hr (by omega)
    refine ⟨ht.1, arrowAhead?_eq_none (by simp [hl]) (by simp [Token.isName, hl]),
      ofBlock t.literal none body' t.pos, ?_, (Rule.gives_blockOrAssignment _ _ _ _).2 ?_⟩
    · rw [ht.2]
      exact unplaced' hb'
    · have h := Rule.Named.block (n := f) (c := ⟨line, t :: l :: (b ++ r :: u :: us)⟩) hl hg
      simpa using h
  | some label =>
    obtain ⟨t, v, l, b, r, rfl, ht, hv, hnear, hl, hsb, hr⟩ := hs hspell
    simp only [List.length_append, List.length_cons, List.length_nil] at hb
    obtain ⟨f, rfl⟩ := Nat.exists_eq_succ_of_ne_zero (n := f) (by omega)
    obtain ⟨body', hb', hg⟩ := reads_body "for block body" hap ih v.pos.line l r u us (f := f) hl hsb
      hr (by omega)
    have hvk : v.kind ≠ .arrow := by
      intro hk
      have hv := hv.1
      simp [Token.isName, hk] at hv
    refine ⟨ht.1, arrowAhead?_eq_none hvk (by simp [hl]),
      ofBlock t.literal (some v.literal) body' t.pos, ?_,
      (Rule.gives_blockOrAssignment _ _ _ _).2 ?_⟩
    · rw [ht.2, hv.2]
      exact unplaced' hb'
    · have h := Rule.Named.labelled (n := f) (c := ⟨line, t :: v :: l :: (b ++ r :: u :: us)⟩) hv.1
        hnear hl hg
      simpa using h

/-- Names with commas between them and an equals sign behind are seen as a list of targets, and just
these. -/
theorem targetList?_of_spells {names : List String} {front : List Token}
    (hn : SpellsNames names front) (h1 : names ≠ []) {sign : Token} (hs : sign.kind = .assign)
    (rest : List Token) :
    ∃ targets, Rule.targetList? (front ++ sign :: rest) = some (targets, sign, rest) ∧
      targets.map Target.name = names := by
  fun_induction SpellsNames names front with
  | case1 => exact absurd rfl h1
  | case2 ts name =>
    obtain ⟨t, rfl, ht⟩ := hn
    refine ⟨[⟨t.literal, t.pos⟩], ?_, by simp [ht.2]⟩
    simp [Rule.targetList?, ht.1, hs]
  | case3 ts name names hne ih =>
    obtain ⟨t, comma, r, rfl, ht, hc, hr⟩ := hn
    obtain ⟨targets, htargets, hnames⟩ := ih r hr (fun h => hne h)
    refine ⟨⟨t.literal, t.pos⟩ :: targets, ?_, by simp [ht.2, hnames]⟩
    simp [Rule.targetList?, ht.1, hc, htargets]

/-- Values with commas between them are read back one by one. -/
theorem reads_values {p : Target × Node} {ps : List (Target × Node)}
    (ih : ∀ q ∈ p :: ps, q.2.ReadsExpression) {ts : List Token} {f : Nat} (line : Nat) (u : Token)
    (us : List Token) (hs : SpellsValues Token.SameLine (p :: ps) ts) (hb : 10 * ts.length + 9 ≤ f)
    (ha : Admits 0 (endLine line ts) u us) :
    ∃ first others e, first.unplaced = p.2.unplaced ∧
      unplacedAll others = unplacedAll (ps.map Prod.snd) ∧
      (Rule.expression f).Gives ⟨line, ts ++ u :: us⟩ first e ∧
      (Rule.moreValues f ps.length).Gives e others ⟨endLine line ts, u :: us⟩ := by
  induction ps generalizing p ts f line with
  | nil =>
    obtain ⟨-, hs⟩ | ⟨_, _, _, -, h, -⟩ := hs
    · obtain ⟨first, hn, hg⟩ := ih p (by simp) line u us (f := f) hs hb ha
      obtain ⟨f, rfl⟩ := Nat.exists_eq_succ_of_ne_zero (n := f) (by omega)
      exact ⟨first, [], _, hn, rfl, hg, (Rule.gives_moreValues_zero _ _ _ _).2 ⟨rfl, rfl⟩⟩
    · exact absurd rfl h
  | cons q qs ihs =>
    obtain ⟨h, -⟩ | ⟨a, comma, rest, rfl, -, hsa, hc, hsr⟩ := hs
    · exact absurd h (by simp)
    · simp only [List.length_append, List.length_cons] at hb
      obtain ⟨first, hn, hg⟩ := ih p (by simp) line comma (rest ++ u :: us) (f := f) hsa (by omega)
        (admits_of_isQuiet (by rw [hc]; rfl))
      obtain ⟨f, rfl⟩ := Nat.exists_eq_succ_of_ne_zero (n := f) (by omega)
      obtain ⟨second, others, e, hsn, hon, hsg, hog⟩ := ihs (fun r hr => ih r (by simp [hr]))
        comma.pos.line (f := f) hsr (by omega) (by simpa using ha)
      refine ⟨first, second :: others, ⟨endLine line a, comma :: (rest ++ u :: us)⟩, hn,
        by simp [unplacedAll, hsn, hon], by simpa using hg, ?_⟩
      refine (Rule.gives_moreValues _ _ _ _ _).2 (.inr ⟨hc, second, e, others, ?_, ?_, rfl⟩)
      · simpa using hsg
      · simpa using hog

/-- Targets and values that are the same up to positions are so in pairs, when there are as many of the one
as of the other. -/
theorem unplacedPairs_zip {pairs : List (Target × Node)} {targets : List Target}
    {values : List Node} (ht : targets.map Target.name = pairs.map fun p => p.1.name)
    (hv : unplacedAll values = unplacedAll (pairs.map Prod.snd)) :
    unplacedPairs (targets.zip values) = unplacedPairs pairs := by
  induction pairs generalizing targets values with
  | nil =>
    obtain rfl : targets = [] := by simpa using ht
    rfl
  | cons p ps ih =>
    match targets, values, ht, hv with
    | t :: targets, v :: values, ht, hv =>
      simp only [List.map_cons, List.cons.injEq, unplacedAll] at ht hv
      simp [unplacedPairs, ht.1, hv.1, ih ht.2 hv.2]

/-- Several names with a value each. As many values are read as there are targets, so the loop over values
ends by itself and not because of what follows. -/
theorem readsNamed_assignEach {pairs : List (Target × Node)} (hf : (assignEach pairs).FitsHere)
    (ih : ∀ p ∈ pairs, p.2.ReadsExpression) : (assignEach pairs).ReadsNamed := by
  intro ts f line u us hs hb hbound
  obtain ⟨front, sign, values, rfl, hn, hsign, hsv⟩ := hs
  obtain ⟨t, comma, rest, rfl, ht, hc⟩ := second_of_spellsNames hn (by simpa using hf.1)
  obtain ⟨targets, htargets, hnames⟩ := targetList?_of_spells hn (by
    intro h
    have := hf.1
    simp [List.map_eq_nil_iff.1 h] at this) hsign (values ++ u :: us)
  have hlen : targets.length = pairs.length := by simpa using congrArg List.length hnames
  match pairs, hf, hsv with
  | p :: ps, _, hsv =>
    simp only [List.length_append, List.length_cons] at hb
    simp only [endLine_append, endLine_cons] at hbound
    obtain ⟨f, rfl⟩ := Nat.exists_eq_succ_of_ne_zero (n := f) (by omega)
    obtain ⟨first, others, e, hfn, hon, hfg, hog⟩ := reads_values ih sign.pos.line u us (f := f) hsv
      (by omega) (hbound.admits 0)
    have hlo : others.length = ps.length := by
      simpa [unplacedAll_eq] using congrArg List.length hon
    refine ⟨by simp [Token.isName, ht], ?_, assignEach (targets.zip (first :: others)), ?_,
      (Rule.gives_blockOrAssignment _ _ _ _).2 ?_⟩
    · exact arrowAhead?_eq_none (by simp [hc]) (by simp [Token.isName, hc])
    · simp only [unplaced]
      rw [unplacedPairs_zip hnames (by simp [unplacedAll, hfn, hon])]
    · refine Rule.Named.assignEach (c := ⟨line, _⟩) (e := e) ht hc (by simpa using htargets) hfg ?_ ?_
      · rw [hlen, List.length_cons, Nat.add_sub_cancel]
        simpa using hog
      · rw [hlen, hlo, List.length_cons]

/-- Several names with one value. The loop over values has been given room for more of them, and it is the
boundary that ends it: no comma stands there. -/
theorem readsNamed_destructure {targets : List Target} {source : Node}
    (hf : (destructure targets source).FitsHere) (h : source.ReadsExpression) :
    (destructure targets source).ReadsNamed := by
  intro ts f line u us hs hb hbound
  obtain ⟨front, sign, a, rfl, hn, hsign, hsa⟩ := hs
  obtain ⟨t, comma, rest, rfl, ht, hc⟩ := second_of_spellsNames hn (by simpa using hf.1)
  obtain ⟨targets', htargets, hnames⟩ := targetList?_of_spells hn (by
    intro h
    have := hf.1
    simp [List.map_eq_nil_iff.1 h] at this) hsign (a ++ u :: us)
  have hlen : targets'.length = targets.length := by simpa using congrArg List.length hnames
  simp only [List.length_append, List.length_cons] at hb
  simp only [endLine_append, endLine_cons] at hbound
  obtain ⟨f, rfl⟩ := Nat.exists_eq_succ_of_ne_zero (n := f) (by omega)
  obtain ⟨source', hn', hg⟩ := h sign.pos.line u us (f := f) hsa (by omega) (hbound.admits 0)
  have h2 := hf.1
  refine ⟨by simp [Token.isName, ht], ?_, destructure targets' source', ?_,
    (Rule.gives_blockOrAssignment _ _ _ _).2 ?_⟩
  · exact arrowAhead?_eq_none (by simp [hc]) (by simp [Token.isName, hc])
  · have hmap : ∀ xs : List Target, (xs.map fun t => (⟨t.name, .start⟩ : Target)) =
        (xs.map Target.name).map fun s => ⟨s, .start⟩ := fun xs => by simp [List.map_map]
    simp only [unplaced, hn']
    rw [hmap, hmap, hnames]
  · refine Rule.Named.destructure (c := ⟨line, _⟩) ht hc (by simpa using htargets) hg ?_ (by omega)
    obtain ⟨f, rfl⟩ := Nat.exists_eq_succ_of_ne_zero (n := f) (by omega)
    have hcomma : u.kind ≠ .comma := by
      intro hcomma
      have hk := hbound.kind
      rw [hcomma] at hk
      exact absurd hk (by decide)
    have hgives := @Rule.moreValues_of_not_comma f (targets'.length - 1)
      ⟨endLine sign.pos.line a, u :: us⟩ hcomma
    simpa using hgives

/-! ## 5. Other statements -/

/-- A comment is one token. -/
theorem readsStatement_comment (text : String) : (comment text).ReadsStatement := by
  intro ts f line u us hs hb _
  obtain ⟨t, rfl, ht, rfl⟩ := hs
  obtain ⟨f, rfl⟩ := Nat.exists_eq_succ_of_ne_zero (n := f) (by omega)
  exact ⟨_, rfl, (Rule.gives_statement _ _ _ _).2 (.comment (c := ⟨line, t :: u :: us⟩) ht)⟩

/-- The name of a relation is that of no other. -/
theorem ofName?_name (r : Relation) : Relation.ofName? r.name = some r := by
  cases r <;> decide

/-- An arrow is recognised and read back by its own rule. -/
theorem reads_arrow {relation : Option Relation} {source target : String} {body : List Node}
    {pos : Position} (hap : Apart body)
    (ih : ∀ m ∈ body, m.isStatement = true ∧ m.FitsHere ∧ m.ReadsStatement) {ts : List Token}
    {f : Nat} (line : Nat) (u : Token) (us : List Token)
    (hs : (arrow relation source target body pos).Spells Token.SameLine ts)
    (hb : 10 * ts.length + 8 ≤ f) (hu : u.kind ≠ .lbrace) :
    (Cursor.peekAt ⟨line, ts ++ u :: us⟩ 0).isName = true ∧
      Rule.arrowAhead? ⟨line, ts ++ u :: us⟩ = some relation ∧ ∃ n',
        n'.unplaced = (arrow relation source target body pos).unplaced ∧
        (Rule.arrow f relation).Gives ⟨line, ts ++ u :: us⟩ n' ⟨endLine line ts, u :: us⟩ := by
  obtain ⟨front, s, sign, t, properties, rfl, hfront, hsource, hsign, htarget, hp⟩ := hs
  simp only [List.length_append, List.length_cons] at hb
  obtain ⟨f, rfl⟩ := Nat.exists_eq_succ_of_ne_zero (n := f) (by omega)
  -- Behind the target stand properties in braces, or what follows the arrow.
  have hprop : ∃ body', unplacedAll body' = unplacedAll body ∧
      (((Cursor.peekAt ⟨t.pos.line, properties ++ u :: us⟩ 0).kind = .lbrace ∧
          (Rule.body f "for arrow properties").Gives ⟨t.pos.line, properties ++ u :: us⟩ body'
            ⟨endLine t.pos.line properties, u :: us⟩) ∨
        ((Cursor.peekAt ⟨t.pos.line, properties ++ u :: us⟩ 0).kind ≠ .lbrace ∧ body' = [] ∧
          (⟨endLine t.pos.line properties, u :: us⟩ : Cursor) =
            ⟨t.pos.line, properties ++ u :: us⟩)) := by
    rcases hp with ⟨rfl, rfl⟩ | ⟨l, b, r, rfl, hl, hsb, hr⟩
    · exact ⟨[], rfl, .inr ⟨hu, rfl, rfl⟩⟩
    · simp only [List.length_append, List.length_cons, List.length_nil] at hb
      obtain ⟨body', hb', hg⟩ := reads_body "for arrow properties" hap ih t.pos.line l r u us
        (f := f) hl hsb hr (by omega)
      exact ⟨body', hb', .inl ⟨hl, by simpa using hg⟩⟩
  obtain ⟨body', hb', hp⟩ := hprop
  have hskip : Cursor.skip ⟨sign.pos.line, t :: (properties ++ u :: us)⟩ =
      ⟨t.pos.line, properties ++ u :: us⟩ := Cursor.skip_cons (by simp)
  cases relation with
  | none =>
    obtain rfl : front = [] := hfront
    refine ⟨hsource.1, ?_, arrow none s.literal t.literal body' s.pos, ?_,
      (Rule.gives_arrow _ _ _ _ _).2 ⟨_, rfl, ?_⟩⟩
    · have hn : s.isName = true := hsource.1
      have hsn : sign.isName = false := by simp [Token.isName, hsign]
      simp [Rule.arrowAhead?, hn, hsign, hsn]
    · simp [unplaced, hsource.2, htarget.2, hb']
    · refine ⟨hsource.1, hsign, htarget.1, body', ?_, rfl⟩
      simpa [hskip] using hp
  | some r =>
    obtain ⟨w, rfl, hw⟩ := hfront
    refine ⟨hw.names.1, ?_, arrow (some r) s.literal t.literal body' w.pos, ?_,
      (Rule.gives_arrow _ _ _ _ _).2 ⟨_, rfl, ?_⟩⟩
    · simp [Rule.arrowAhead?, hw.1, hw.2, hsource.1, hsign, ofName?_name]
    · simp [unplaced, hsource.2, htarget.2, hb']
    · refine ⟨hsource.1, hsign, htarget.1, body', ?_, rfl⟩
      simpa [hskip] using hp

/-- An arrow is read back with its properties, and with its relation if it has one. -/
theorem readsStatement_arrow {relation : Option Relation} {source target : String}
    {body : List Node} {pos : Position} (hap : Apart body)
    (ih : ∀ m ∈ body, m.isStatement = true ∧ m.FitsHere ∧ m.ReadsStatement) :
    (arrow relation source target body pos).ReadsStatement := by
  intro ts f line u us hs hb hbound
  obtain ⟨f, rfl⟩ := Nat.exists_eq_succ_of_ne_zero (n := f) (by omega)
  have hu : u.kind ≠ .lbrace := by
    have hk := hbound.kind
    revert hk
    cases u.kind <;> decide
  obtain ⟨hk, ha, n', hn', hg⟩ := reads_arrow hap ih line u us (f := f) hs (by omega) hu
  exact ⟨n', hn', (Rule.gives_statement _ _ _ _).2 (.arrow hk ha hg)⟩

/-- A condition is written in parentheses, and these are taken off again when it has been read. -/
theorem unplaced_ungroup {n condition : Node} (h : n.unplaced = (group condition).unplaced) :
    (Rule.ungroup n).unplaced = condition.unplaced := by
  cases n with
  | group inner => simpa [unplaced, Rule.ungroup] using h
  | _ => simp [unplaced] at h

/-- What is known of the nodes of a link of an `IF` chain. -/
def ReadsBranch (b : Branch Node) : Prop :=
  (∀ c ∈ b.condition, Everywhere FitsHere c ∧ c.isValue = true ∧ c.ReadsExpression) ∧
    Apart b.body ∧ ∀ m ∈ b.body, m.isStatement = true ∧ m.FitsHere ∧ m.ReadsStatement

/-- The links behind one with a condition are read back. -/
def ReadsChain (bs : List (Branch Node)) : Prop :=
  ∀ {ts : List Token} {f : Nat} (line : Nat) (u : Token) (us : List Token),
    SpellsBranches Token.SameLine .elseIfWord bs ts → 10 * ts.length + 9 ≤ f →
    Rule.elseAhead ⟨line, u :: us⟩ = false →
    ∃ bs', unplacedBranches bs' = unplacedBranches bs ∧
      (Rule.elseChain f).Gives ⟨line, ts ++ u :: us⟩ bs' ⟨endLine line ts, u :: us⟩

/-- A link with a condition is read back, whatever its keyword, and all links behind it. -/
theorem reads_control {keyword : Kind} {condition : Node} {body : List Node} {pos : Position}
    {bs : List (Branch Node)} (hb : ReadsBranch ⟨some condition, body, pos⟩) (hbs : ReadsChain bs)
    {ts : List Token} {f : Nat} (line : Nat) (u : Token) (us : List Token)
    (hs : SpellsBranches Token.SameLine keyword (⟨some condition, body, pos⟩ :: bs) ts)
    (hf : 10 * ts.length + 8 ≤ f) (he : Rule.elseAhead ⟨line, u :: us⟩ = false) :
    ∃ bs', unplacedBranches bs' = unplacedBranches (⟨some condition, body, pos⟩ :: bs) ∧
      (Rule.control f).Gives ⟨line, ts ++ u :: us⟩ bs' ⟨endLine line ts, u :: us⟩ := by
  obtain ⟨word, l, a, r, l', b, r', rest, rfl, hword, hl, hsa, hr, hl', hsb, hr', hrest⟩ := hs
  simp only [List.length_append, List.length_cons] at hf
  obtain ⟨f, rfl⟩ := Nat.exists_eq_succ_of_ne_zero (n := f) (by omega)
  obtain ⟨hcf, hcv, hcr⟩ := hb.1 condition rfl
  -- The condition and its parentheses are one operand.
  have hgroup : (group condition).ReadsExpression :=
    have hfits : Everywhere FitsHere (group condition) :=
      .intro hcv fun m hm => by
        obtain rfl := List.mem_singleton.1 hm
        exact hcf
    (readsValue_of_members hfits rfl
      (readsMembers_of_operand hfits rfl rfl (readsOperand_group hcr))).expression
  have hspell : (group condition).Spells Token.SameLine (l :: (a ++ [r])) := ⟨l, a, r, rfl, hl, hsa, hr⟩
  obtain ⟨n', hn', hg⟩ := hgroup word.pos.line l' (b ++ r' :: (rest ++ u :: us)) (f := f) hspell
    (by simp only [List.length_append, List.length_cons, List.length_nil]; omega)
    (admits_of_isQuiet (by rw [hl']; rfl))
  -- Behind the body stands the rest of the chain, or what follows it.
  obtain ⟨v, vs, hv⟩ : ∃ v vs, rest ++ u :: us = v :: vs :=
    List.exists_cons_of_ne_nil (by simp)
  obtain ⟨body', hb', hbg⟩ := reads_body "for IF body" hb.2.1 hb.2.2 r.pos.line l' r' v vs (f := f)
    hl' hsb hr' (by omega)
  obtain ⟨bs', hbs', hcg⟩ := hbs r'.pos.line u us (f := f) hrest (by omega) he
  refine ⟨⟨some (Rule.ungroup n'), body', word.pos⟩ :: bs', ?_, (Rule.gives_control _ _ _ _).2
    ⟨n', ⟨r.pos.line, l' :: (b ++ r' :: (rest ++ u :: us))⟩, body',
      ⟨r'.pos.line, rest ++ u :: us⟩, bs', ?_, ?_, ?_, rfl⟩⟩
  · simp [unplacedBranches, unplacedOption, unplaced_ungroup hn', hb', hbs']
  · simpa using hg
  · rw [hv]
    exact hbg
  · simpa using hcg

/-- The links of a chain are read back in turn. A link without a condition is the last, so the recursion
ends with it or at the boundary, where no keyword of a chain stands. -/
theorem readsChain {bs : List (Branch Node)} (hl : Links bs) (hbs : ∀ b ∈ bs, ReadsBranch b) :
    ReadsChain bs := by
  induction bs with
  | nil =>
    intro ts f line u us hs hf he
    obtain rfl : ts = [] := hs
    obtain ⟨f, rfl⟩ := Nat.exists_eq_succ_of_ne_zero (n := f) (by omega)
    exact ⟨[], rfl, (Rule.gives_elseChain _ _ _ _).2 (.inl ⟨he, rfl, rfl⟩)⟩
  | cons b bs ih =>
    intro ts f line u us hs hf he
    have ihs : ReadsChain bs := ih hl.2.2.2 fun b hb => hbs b (by simp [hb])
    obtain ⟨f, rfl⟩ := Nat.exists_eq_succ_of_ne_zero (n := f) (by omega)
    match b, hl, hbs b (by simp), hs with
    | ⟨some condition, body, pos⟩, _, hb, hs =>
      obtain ⟨bs', hbs', hg⟩ := reads_control hb ihs line u us (f := f) hs (by omega) he
      obtain ⟨word, l, a, r, l', b, r', rest, rfl, hword, -⟩ := hs
      refine ⟨bs', hbs', (Rule.gives_elseChain _ _ _ _).2 (.inr ⟨?_, .inl ?_⟩)⟩
      · simp [Rule.elseAhead, hword]
      · rw [List.cons_append, Cursor.skipComments_of_not (by simp [hword])]
        exact ⟨hword, hg⟩
    | ⟨none, body, pos⟩, hl, hb, hs =>
      obtain rfl := hl.1 rfl
      obtain ⟨word, l, b, r, rest, rfl, hword, hlk, hsb, hr, hrest⟩ := hs
      obtain rfl : rest = [] := hrest
      simp only [List.length_append, List.length_cons, List.length_nil] at hf
      obtain ⟨body', hb', hg⟩ := reads_body "for ELSE body" hb.2.1 hb.2.2 word.pos.line l r u us
        (f := f) hlk hsb hr (by omega)
      refine ⟨[⟨none, body', word.pos⟩], by simp [unplacedBranches, unplacedOption, hb'],
        (Rule.gives_elseChain _ _ _ _).2 (.inr ⟨?_, .inr ?_⟩)⟩
      · simp [Rule.elseAhead, hword]
      · rw [List.cons_append, Cursor.skipComments_of_not (by simp [hword])]
        refine ⟨by simp [hword], .inr ⟨by simp [hlk], body', ?_, rfl⟩⟩
        simpa using hg

/-- A chain is read back from its first keyword on. -/
theorem readsStatement_control {branches : List (Branch Node)}
    (hf : (control branches).FitsHere) (hbs : ∀ b ∈ branches, ReadsBranch b) :
    (control branches).ReadsStatement := by
  intro ts f line u us hs hb hbound
  obtain ⟨f, rfl⟩ := Nat.exists_eq_succ_of_ne_zero (n := f) (by omega)
  obtain ⟨b, hhead, hc⟩ := hf.1
  match branches, hhead, hf, hbs, hs with
  | ⟨none, _, _⟩ :: _, hhead, _, _, _ =>
    obtain rfl := Option.some.inj hhead
    exact absurd hc (by simp)
  | ⟨some condition, body, pos⟩ :: bs, _, hf, hbs, hs =>
    obtain ⟨bs', hbs', hg⟩ := reads_control (hbs _ (by simp))
      (readsChain hf.2.2.2.2 fun b hb => hbs b (by simp [hb])) line u us (f := f) hs (by omega)
      hbound.noElse
    obtain ⟨word, l, a, r, l', b, r', rest, rfl, hword, -⟩ := hs
    refine ⟨control bs', by simp only [unplaced, hbs'], (Rule.gives_statement _ _ _ _).2 ?_⟩
    exact .control hword hg

/-! ## 6. Directives with arguments or steps -/

/-- Steps of a pipeline are apart, as no flag is among them. -/
theorem apart_of_isStep {ns : List Node} (h : ∀ m ∈ ns, m.isStep = true) : Apart ns := by
  match ns with
  | [] | [_] => trivial
  | n :: m :: ns =>
    refine ⟨?_, apart_of_isStep fun k hk => h k (by simp [hk])⟩
    rintro ⟨hn, -⟩
    have hs := h n (by simp)
    match n, hs, hn with
    | assign _ _ .flag, hs, _ => simp [isStep] at hs

/-- How a step of a pipeline is read back, by its kind. -/
def ReadsStep (n : Node) : Prop :=
  (∃ text, n = comment text) ∨
    (∃ relation source target body pos, n = arrow relation source target body pos ∧ Apart body ∧
      ∀ m ∈ body, m.isStatement = true ∧ m.FitsHere ∧ m.ReadsStatement) ∨
    (∃ target value style, n = assign target value style ∧ style ≠ .flag ∧ n.ReadsNamed)

/-- The items of a pipeline are read back one after the other. As the rule refuses everything that is no
step, it is asked of each statement to be one. -/
theorem reads_pipelineItems {ns : List Node} (hst : ∀ m ∈ ns, m.isStep = true ∧ m.FitsHere)
    (ih : ∀ m ∈ ns, m.ReadsStep) {ts : List Token} {f : Nat} (line : Nat) (r u : Token)
    (us : List Token) (hs : SpellsStatements Token.SameLine ns ts) (hr : r.kind = .rbrace)
    (hb : 10 * ts.length + 10 ≤ f) :
    ∃ ns', unplacedAll ns' = unplacedAll ns ∧ (Rule.pipelineItems f).Gives
      ⟨line, ts ++ r :: u :: us⟩ ns' ⟨r.pos.line, u :: us⟩ := by
  induction ns generalizing ts f line with
  | nil =>
    obtain rfl : ts = [] := hs
    obtain ⟨f, rfl⟩ := Nat.exists_eq_succ_of_ne_zero (n := f) (by omega)
    refine ⟨[], rfl, (Rule.gives_pipelineItems _ _ _ _).2 ?_⟩
    rw [List.nil_append, Cursor.skipSeparators_of_not (by simp [hr])]
    exact .close hr
  | cons n ns ihs =>
    obtain ⟨a, b, rfl, ha, hsb, hl⟩ := hs
    obtain ⟨hk, hf⟩ := hst n (by simp)
    have hstat : ∀ m ∈ ns, m.isStatement = true ∧ m.FitsHere := fun m hm =>
      ⟨isStatement_of_isStep (hst m (by simp [hm])).1, (hst m (by simp [hm])).2⟩
    simp only [List.length_append] at hb
    obtain ⟨f, rfl⟩ := Nat.exists_eq_succ_of_ne_zero (n := f) (by omega)
    obtain ⟨x, rest, rfl, hx, -⟩ := head_of_spells_statement (isStatement_of_isStep hk) hf ha
    obtain ⟨y, ys, hy, hbound⟩ := boundary_of_spells (apart_of_isStep fun m hm => (hst m hm).1) hstat
      (by simp) hsb hl (.inl hr) line (u :: us)
    simp only [List.length_cons] at hb
    obtain ⟨ns', hns', hgs⟩ := ihs (fun m hm => hst m (by simp [hm])) (fun m hm => ih m (by simp [hm]))
      (f := f) (endLine line (x :: rest)) hsb (by omega)
    have hfirst : x.kind ≠ .semicolon ∧ x.kind ≠ .comma := by
      revert hx
      cases x.kind <;> decide
    -- Nothing is skipped in front of an item, since none begins with a separator.
    have hskip : Cursor.skipSeparators ⟨line, x :: rest ++ b ++ r :: u :: us⟩ =
        ⟨line, x :: rest ++ y :: ys⟩ := by
      rw [List.append_assoc, hy, List.cons_append, Cursor.skipSeparators_of_not hfirst]
    rw [hy] at hgs
    rcases ih n (by simp) with ⟨text, rfl⟩ | ⟨relation, source, target, body, pos, rfl, hap, hread⟩ |
      ⟨target, value, style, rfl, hstyle, hread⟩
    · obtain ⟨t, he, ht, rfl⟩ := ha
      obtain ⟨rfl, rfl⟩ := List.cons.inj he
      refine ⟨comment x.literal :: ns', by simp [unplacedAll, unplaced, hns'],
        (Rule.gives_pipelineItems _ _ _ _).2 ?_⟩
      rw [hskip]
      exact Rule.PipelineItems.comment (c := ⟨line, x :: y :: ys⟩) ht hgs
    -- Behind an arrow without properties there is no brace to be taken for its own.
    · have hyk : y.kind ≠ .lbrace := by
        have hk := hbound.kind
        revert hk
        cases y.kind <;> decide
      obtain ⟨hn, harrow, n', hn', hg⟩ := reads_arrow hap hread line y ys (f := f) ha
        (by simp only [List.length_cons]; omega) hyk
      refine ⟨n' :: ns', by simp [unplacedAll, hn', hns'], (Rule.gives_pipelineItems _ _ _ _).2 ?_⟩
      rw [hskip]
      exact .arrow hn harrow hg hgs
    · obtain ⟨hn, harrow, n', hn', hg⟩ := hread line y ys (f := f) ha
        (by simp only [List.length_cons]; omega) hbound
      -- A step is told from everything else by the sign behind its name.
      have hsecond : (Cursor.peekAt ⟨line, x :: rest ++ y :: ys⟩ 1).kind = .assign ∨
          (Cursor.peekAt ⟨line, x :: rest ++ y :: ys⟩ 1).kind = .colon := by
        cases style with
        | flag => exact absurd rfl hstyle
        | colon =>
          obtain ⟨t, sign, c, he, -, hsign, -⟩ := ha
          rw [he]
          exact .inr hsign
        | equals =>
          obtain ⟨t, sign, c, he, -, hsign, -⟩ := ha
          rw [he]
          exact .inl hsign
      refine ⟨n' :: ns', by simp [unplacedAll, hn', hns'], (Rule.gives_pipelineItems _ _ _ _).2 ?_⟩
      rw [hskip]
      exact .step hn harrow hsecond hg hgs

/-- A pipeline is read back with its braces. -/
theorem readsDirective_pipeline {body : List Node} {pos : Position}
    (hst : ∀ m ∈ body, m.isStep = true ∧ m.FitsHere) (ih : ∀ m ∈ body, m.ReadsStep) :
    (pipeline body pos).ReadsDirective := by
  intro ts f line u us hs hb _
  obtain ⟨sign, word, l, b, r, rfl, hsign, hw, hl, hsb, hr⟩ := hs
  simp only [List.length_append, List.length_cons, List.length_nil] at hb
  obtain ⟨f, rfl⟩ := Nat.exists_eq_succ_of_ne_zero (n := f) (by omega)
  obtain ⟨body', hb', hg⟩ := reads_pipelineItems hst ih l.pos.line r u us (f := f) hsb hr (by omega)
  refine ⟨⟨sign, _, rfl, hsign⟩, pipeline body' sign.pos, by simp [unplaced, hb'],
    (Rule.gives_directive _ _ _ _).2 ⟨hsign, hw.1, ?_⟩⟩
  have h : Rule.Directive f ⟨line, sign :: word :: l :: (b ++ r :: u :: us)⟩
      (pipeline body' sign.pos) ⟨r.pos.line, u :: us⟩ :=
    .pipeline hw.2 hl (by simpa using hg)
  simpa using h

/-- The arguments of `@exec` behind the command, up to the parenthesis. -/
theorem reads_moreExecArguments (sign : Token) (cmd : Node) {args dir : Option Node}
    (iha : ∀ n ∈ args, n.ReadsExpression) (ihd : ∀ n ∈ dir, n.ReadsExpression)
    {b d : List Token} {f : Nat} (line : Nat) (r u : Token) (us : List Token)
    (hsb : SpellsOption Token.SameLine "args" args b) (hsd : SpellsOption Token.SameLine "dir" dir d)
    (hr : r.kind = .rparen) (hf : 10 * (b.length + d.length) + 10 ≤ f) :
    ∃ args' dir', unplacedOption args' = unplacedOption args ∧
      unplacedOption dir' = unplacedOption dir ∧
      (Rule.moreExecArguments f sign (some cmd) none none).Gives
        ⟨line, b ++ (d ++ r :: u :: us)⟩ (.exec cmd args' dir' sign.pos) ⟨r.pos.line, u :: us⟩ := by
  -- The parenthesis ends the arguments wherever it stands.
  have close : ∀ {args' dir' : Option Node} {f : Nat} (line : Nat), 1 ≤ f →
      (Rule.moreExecArguments f sign (some cmd) args' dir').Gives ⟨line, r :: u :: us⟩
        (.exec cmd args' dir' sign.pos) ⟨r.pos.line, u :: us⟩ := by
    intro args' dir' f line h1
    obtain ⟨f, rfl⟩ := Nat.exists_eq_succ_of_ne_zero (n := f) (by omega)
    refine (Rule.gives_moreExecArguments _ _ _ _ _ _ _ _).2 (.inr ?_)
    rw [Cursor.skipComments_of_not (by simp [hr])]
    exact ⟨hr, (Rule.gives_execNode _ _ _ _ _ _ _).2 ⟨cmd, rfl, rfl, rfl⟩⟩
  -- An argument behind a comma is read, and then what follows it.
  have argument : ∀ {key : String} {n : Node} {ts : List Token} {f : Nat} (line : Nat) (v : Token)
      (vs : List Token), n.ReadsExpression → SpellsOption Token.SameLine key (some n) ts →
      10 * ts.length + 2 ≤ f → v.kind.isQuiet = true → ∃ n', n'.unplaced = n.unplaced ∧
        ∀ (as ds : Option Node) (t : Node) (e : Cursor),
        ((key = "args" ∧ (Rule.moreExecArguments (f - 2) sign (some cmd) (some n') ds).Gives
            ⟨endLine line ts, v :: vs⟩ t e) ∨
          (key = "dir" ∧ (Rule.moreExecArguments (f - 2) sign (some cmd) as (some n')).Gives
            ⟨endLine line ts, v :: vs⟩ t e)) →
        (Rule.moreExecArguments f sign (some cmd) as ds).Gives ⟨line, ts ++ v :: vs⟩ t e := by
    intro key n ts f line v vs hn hs hf hq
    obtain ⟨comma, k, eq, a, rfl, hcomma, hk, heq, hsa⟩ := hs
    simp only [List.length_cons] at hf
    obtain ⟨f, rfl⟩ : ∃ g, f = g + 2 := ⟨f - 2, by omega⟩
    obtain ⟨n', hn', hg⟩ := hn eq.pos.line v vs (f := f) hsa (by omega) (admits_of_isQuiet hq)
    refine ⟨n', hn', fun as ds t e h => ?_⟩
    refine (Rule.gives_moreExecArguments _ _ _ _ _ _ _ _).2 (.inl ?_)
    rw [List.cons_append, Cursor.skipComments_of_not (by simp [hcomma])]
    refine ⟨hcomma, (Rule.gives_execArguments _ _ _ _ _ _ _ _).2 (.inr ?_)⟩
    simp only [List.cons_append, Cursor.skip_cons_cons]
    rw [Cursor.skipComments_of_not (by simp [hk.1])]
    refine ⟨hk.1, heq, n', ⟨endLine eq.pos.line a, v :: vs⟩, by simpa using hg, .inr ?_⟩
    rcases h with ⟨rfl, h⟩ | ⟨rfl, h⟩
    · exact .inl ⟨hk.2, by simpa using h⟩
    · exact .inr ⟨hk.2, by simpa using h⟩
  have dirs : ∀ (args' : Option Node) {f : Nat} (line : Nat), 10 * d.length + 3 ≤ f →
      ∃ dir', unplacedOption dir' = unplacedOption dir ∧
        (Rule.moreExecArguments f sign (some cmd) args' none).Gives ⟨line, d ++ r :: u :: us⟩
          (.exec cmd args' dir' sign.pos) ⟨r.pos.line, u :: us⟩ := by
    intro args' f line hf
    cases dir with
    | none =>
      obtain rfl : d = [] := hsd
      exact ⟨none, rfl, close line (by omega)⟩
    | some n =>
      obtain ⟨n', hn', h⟩ := argument (f := f) line r (u :: us) (ihd n rfl) hsd (by omega)
        (by rw [hr]; rfl)
      exact ⟨some n', by simp [unplacedOption, hn'], h _ _ _ _ (.inr ⟨rfl, close _ (by omega)⟩)⟩
  cases args with
  | none =>
    obtain rfl : b = [] := hsb
    obtain ⟨dir', hd', hg⟩ := dirs none (f := f) line (by omega)
    exact ⟨none, dir', rfl, hd', hg⟩
  | some n =>
    obtain ⟨v, vs, hv, hq⟩ : ∃ v vs, d ++ r :: u :: us = v :: vs ∧ v.kind.isQuiet = true := by
      cases dir with
      | none =>
        obtain rfl : d = [] := hsd
        exact ⟨r, _, rfl, by rw [hr]; rfl⟩
      | some m =>
        obtain ⟨comma, k, eq, a, rfl, hcomma, -⟩ := hsd
        exact ⟨comma, _, rfl, by rw [hcomma]; rfl⟩
    obtain ⟨n', hn', h⟩ := argument (f := f) line v vs (iha n rfl) hsb (by omega) hq
    obtain ⟨dir', hd', hg⟩ := dirs (some n') (f := f - 2) (endLine line b) (by omega)
    rw [hv] at hg ⊢
    exact ⟨some n', dir', by simp [unplacedOption, hn'], hd', h _ _ _ _ (.inl ⟨rfl, hg⟩)⟩

/-- An execution is read back with its arguments, in the one order in which they are spelled. Behind its
command stands a comma or the bracket, depending on which arguments there are, and either ends the
expression in front of it. -/
theorem readsDirective_exec {cmd : Node} {args dir : Option Node} {pos : Position}
    (ihc : cmd.ReadsExpression) (iha : ∀ n ∈ args, n.ReadsExpression)
    (ihd : ∀ n ∈ dir, n.ReadsExpression) : (exec cmd args dir pos).ReadsDirective := by
  intro ts f line u us hs hb _
  obtain ⟨sign, word, l, key, eq, a, b, d, r, rfl, hsign, hw, hl, hkey, heq, hsa, hsb, hsd, hr⟩ := hs
  simp only [List.length_append, List.length_cons, List.length_nil] at hb
  obtain ⟨f, rfl⟩ : ∃ g, f = g + 2 := ⟨f - 2, by omega⟩
  -- The token behind the command.
  obtain ⟨v, vs, hv, hq⟩ : ∃ v vs, b ++ (d ++ r :: u :: us) = v :: vs ∧ v.kind.isQuiet = true := by
    cases args with
    | some n =>
      obtain ⟨comma, k, eq, a, rfl, hcomma, -⟩ := hsb
      exact ⟨comma, _, rfl, by rw [hcomma]; rfl⟩
    | none =>
      obtain rfl : b = [] := hsb
      cases dir with
      | none =>
        obtain rfl : d = [] := hsd
        exact ⟨r, _, rfl, by rw [hr]; rfl⟩
      | some m =>
        obtain ⟨comma, k, eq, a, rfl, hcomma, -⟩ := hsd
        exact ⟨comma, _, rfl, by rw [hcomma]; rfl⟩
  obtain ⟨cmd', hc', hcg⟩ := ihc eq.pos.line v vs (f := f) hsa (by omega) (admits_of_isQuiet hq)
  obtain ⟨args', dir', ha', hd', hg⟩ := reads_moreExecArguments sign cmd' iha ihd
    (endLine eq.pos.line a) r u us (f := f) hsb hsd hr (by omega)
  refine ⟨⟨sign, _, rfl, hsign⟩, exec cmd' args' dir' sign.pos, by simp [unplaced, hc', ha', hd'],
    (Rule.gives_directive _ _ _ _).2 ⟨hsign, hw.1, ?_⟩⟩
  have hargs : (Rule.execArguments (f + 1) sign none none none).Gives
      ⟨l.pos.line, key :: eq :: (a ++ v :: vs)⟩ (exec cmd' args' dir' sign.pos)
      ⟨r.pos.line, u :: us⟩ := by
    refine (Rule.gives_execArguments _ _ _ _ _ _ _ _).2 (.inr ?_)
    rw [Cursor.skipComments_of_not (by simp [hkey.1])]
    refine ⟨hkey.1, heq, cmd', ⟨endLine eq.pos.line a, v :: vs⟩, by simpa using hcg, .inl
      ⟨hkey.2, ?_⟩⟩
    rwa [hv] at hg
  rw [← hv] at hargs
  have h := Rule.Directive.exec (n := f + 1)
    (c := ⟨line, sign :: word :: l :: key :: eq :: (a ++ (b ++ (d ++ r :: u :: us)))⟩) hw.2 hl hargs
  simpa using h

end Node

end BlockConfig
