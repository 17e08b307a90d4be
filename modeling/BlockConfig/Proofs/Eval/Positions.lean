import BlockConfig.Engine
import BlockConfig.Proofs.Eval.Congruence

/-!
Positions do not matter for what is evaluated.

Positions are read in one place only: an error takes along the position of the statement that it
came from. So two trees that differ in their positions alone are evaluated alike, with the same
result and the same effects on the scope and the world, or both fail (`Node.agree_unplaced`).

Being alike is stated for evaluations with related results (`Eval.Agree`), because an evaluation
that was attempted hands its error on as a result. Everything that evaluation is put together from
keeps it, and the theorem is an induction on the tree that does nothing but put together.
-/

set_option autoImplicit false

namespace BlockConfig

/-- Locating an error does not change its cause. -/
theorem EvalError.root_locate (file : String) (pos : Position) (e : EvalError) :
    (e.locate file pos).root = e.root := by
  cases e <;> rfl

namespace Eval

variable {α β γ δ : Type} {R : α → β → Prop} {S : γ → δ → Prop}

/-! ## 1. Evaluations that are alike -/

/-- Outcomes that differ at most in the places of their errors: results that are related, errors with
one cause, or the same breaking off. -/
inductive Alike (R : α → β → Prop) : Except Fault α → Except Fault β → Prop
  | result {a : α} {b : β} (h : R a b) : Alike R (.ok a) (.ok b)
  | error {e e' : EvalError} (h : e.root = e'.root) : Alike R (.error (.error e)) (.error (.error e'))
  | abort (message : String) : Alike R (.error (.abort message)) (.error (.abort message))

/-- Evaluations that have outcomes which are alike and end in the same state, from every state. -/
def Agree (R : α → β → Prop) (x : Eval α) (y : Eval β) : Prop :=
  ∀ s, Alike R (x s).1 (y s).1 ∧ (x s).2 = (y s).2

/-- An evaluation agrees with itself. -/
theorem Agree.refl (x : Eval α) : Agree Eq x x := by
  intro s
  refine ⟨?_, rfl⟩
  cases (x s).1 with
  | ok a => exact .result rfl
  | error fault =>
    cases fault with
    | error e => exact .error rfl
    | abort message => exact .abort message

/-- Agreement is symmetric, as it is stated of equal values. -/
theorem Agree.symm {x y : Eval α} (h : Agree Eq x y) : Agree Eq y x := by
  intro s
  obtain ⟨h1, h2⟩ := h s
  refine ⟨?_, h2.symm⟩
  generalize (x s).1 = a at h1
  generalize (y s).1 = b at h1
  cases h1 with
  | result h => exact .result h.symm
  | error h => exact .error h.symm
  | abort message => exact .abort message

/-- Agreement is transitive. Faults agree if they are alike up to their positions, and this is so for three
of them when it is so for each two in turn. -/
theorem Agree.trans {x y z : Eval α} (h : Agree Eq x y) (h' : Agree Eq y z) : Agree Eq x z := by
  intro s
  obtain ⟨h1, h2⟩ := h s
  obtain ⟨h1', h2'⟩ := h' s
  refine ⟨?_, h2.trans h2'⟩
  generalize (x s).1 = a at h1
  generalize (y s).1 = b at h1 h1'
  generalize (z s).1 = c at h1'
  cases h1 with
  | result h =>
    cases h1' with
    | result h' => exact .result (h.trans h')
  | error h =>
    cases h1' with
    | error h' => exact .error (h.trans h')
  | abort message =>
    cases h1' with
    | abort _ => exact .abort message

/-- The result of an evaluation is that of one which is like it. -/
theorem Agree.result_eq {x y : Eval α} (h : Agree Eq x y) {s t : State} {a : α}
    (hx : x s = (.ok a, t)) : y s = (.ok a, t) := by
  obtain ⟨h1, h2⟩ := h s
  rw [hx] at h1 h2
  generalize y s = q at h1 h2
  obtain ⟨b, u⟩ := q
  obtain rfl : t = u := h2
  cases h1 with
  | result hab => rw [hab]

/-- An evaluation that is like one which fails fails as well. -/
theorem Agree.exists_error {x y : Eval α} (h : Agree Eq x y) {s t : State} {e : EvalError}
    (hx : x s = (.error (.error e), t)) : ∃ e', y s = (.error (.error e'), t) := by
  obtain ⟨h1, h2⟩ := h s
  rw [hx] at h1 h2
  generalize y s = q at h1 h2
  obtain ⟨b, u⟩ := q
  obtain rfl : t = u := h2
  cases h1 with
  | error => exact ⟨_, rfl⟩

/-- Steps that are alike, one after another. -/
theorem Agree.bind {x : Eval α} {y : Eval β} {f : α → Eval γ} {g : β → Eval δ} (h : Agree R x y)
    (hf : ∀ a b, R a b → Agree S (f a) (g b)) : Agree S (x >>= f) (y >>= g) := by
  intro s
  obtain ⟨h1, h2⟩ := h s
  rw [bind_apply, bind_apply]
  generalize x s = p at h1 h2
  generalize y s = q at h1 h2
  obtain ⟨a, s₁⟩ := p
  obtain ⟨b, s₂⟩ := q
  obtain rfl : s₁ = s₂ := h2
  cases h1 with
  | result h => exact hf _ _ h s₁
  | error h => exact ⟨.error h, rfl⟩
  | abort message => exact ⟨.abort message, rfl⟩

/-- A step that is alike, and what is done with its result. -/
theorem Agree.andThen {x y : Eval α} {f g : α → Eval β} (h : Agree Eq x y)
    (hf : ∀ a, Agree Eq (f a) (g a)) : Agree Eq (x >>= f) (y >>= g) :=
  h.bind fun a _ hab => hab ▸ hf a

/-- Evaluations that agree are followed in the same way. -/
theorem Agree.map {x y : Eval α} (h : Agree Eq x y) (f : α → Eval β) :
    Agree Eq (x >>= f) (y >>= f) :=
  h.andThen fun a => .refl (f a)

/-! ## 2. What evaluation is put together from -/

/-- Two outcomes of an attempt that are alike: the same result, or errors with one cause. -/
inductive SameAttempt : Except EvalError α → Except EvalError α → Prop
  | result (a : α) : SameAttempt (.ok a) (.ok a)
  | error {e e' : EvalError} (h : e.root = e'.root) : SameAttempt (.error e) (.error e')

/-- Where failures are caught, evaluations that agree give alike attempts: the same value, or errors that
differ in their positions only. -/
theorem agree_attempt {x y : Eval α} (h : Agree Eq x y) :
    Agree SameAttempt (attempt x) (attempt y) := by
  intro s
  obtain ⟨h1, h2⟩ := h s
  unfold attempt
  generalize x s = p at h1 h2
  generalize y s = q at h1 h2
  obtain ⟨a, s₁⟩ := p
  obtain ⟨b, s₂⟩ := q
  obtain rfl : s₁ = s₂ := h2
  cases h1 with
  | result h => subst h; exact ⟨.result (.result _), rfl⟩
  | error h => exact ⟨.result (.error h), rfl⟩
  | abort message => exact ⟨.abort message, rfl⟩

/-- An attempt that is failed with later on fails alike. -/
theorem SameAttempt.ofExcept {r r' : Except EvalError α} (h : SameAttempt r r') :
    Agree Eq (Eval.ofExcept r) (Eval.ofExcept r') := by
  cases h with
  | result a => exact .refl _
  | error h => exact fun _ => ⟨.error h, rfl⟩

/-- A position that is given to an error may be another one; it is all that is allowed to differ. -/
theorem agree_locating (file : String) (p p' : Option Position) {x y : Eval α} (h : Agree Eq x y) :
    Agree Eq (locating file p x) (locating file p' y) := by
  intro s
  obtain ⟨h1, h2⟩ := h s
  unfold locating
  generalize x s = a at h1 h2
  generalize y s = b at h1 h2
  obtain ⟨a, s₁⟩ := a
  obtain ⟨b, s₂⟩ := b
  obtain rfl : s₁ = s₂ := h2
  cases h1 with
  | result h => exact ⟨.result h, rfl⟩
  | error h =>
    -- A place changes nothing about the cause.
    refine ⟨?_, ?_⟩
    · cases p <;> cases p' <;> exact .error (by simpa [EvalError.root_locate] using h)
    · cases p <;> cases p' <;> rfl
  | abort message => exact ⟨.abort message, rfl⟩

/-- Statements that agree do so in every scope, and the tables they leave are equal. -/
theorem agree_within (other : Scope → Scope) {x y : Eval Unit} (h : Agree Eq x y) :
    Agree Eq (within other x) (within other y) := by
  intro s
  obtain ⟨h1, h2⟩ := h { s with scope := other s.scope }
  unfold within
  generalize x { s with scope := other s.scope } = a at h1 h2
  generalize y { s with scope := other s.scope } = b at h1 h2
  obtain ⟨a, s₁⟩ := a
  obtain ⟨b, s₂⟩ := b
  obtain rfl : s₁ = s₂ := h2
  cases h1 with
  | result h => exact ⟨.result rfl, rfl⟩
  | error h => exact ⟨.error h, rfl⟩
  | abort message => exact ⟨.abort message, rfl⟩

/-- The steps of a pipeline agree if those of one name do. The order in which they run is the same, since
only names are looked at for it. -/
theorem agree_runSteps {steps steps' : List (String × Eval Value)} (h : Steps (Agree Eq) steps steps')
    (output : Value) (names : List String) :
    Agree Eq (runSteps steps output names) (runSteps steps' output names) := by
  induction names generalizing output with
  | nil => exact .refl _
  | cons name names ih =>
    unfold runSteps
    rcases h.lookup name with ⟨h1, h2⟩ | ⟨x, y, h1, h2, hxy⟩
    · rw [h1, h2]
      exact ih output
    · rw [h1, h2]
      refine hxy.andThen fun v => (Agree.refl _).andThen fun v => ?_
      exact (Agree.refl _).andThen fun _ => ih v

/-- The order of a pipeline is found from its arrows alone, and those are the same. -/
theorem agree_runPipeline {steps steps' : List (String × Eval Value)} (h : Steps (Agree Eq) steps steps')
    (arrows : List (String × String)) :
    Agree Eq (runPipeline steps arrows) (runPipeline steps' arrows) := by
  unfold runPipeline
  rw [h.names]
  cases Pipeline.order (steps'.map Prod.fst) arrows with
  | error fault => exact .refl _
  | ok names =>
    intro s
    obtain ⟨h1, h2⟩ := agree_runSteps h .null names { s with scope := s.scope.child }
    refine ⟨h1, ?_⟩
    show State.mk s.scope _ = State.mk s.scope _
    rw [h2]

/-- A name that is bound to an element of an attempt. If the attempt has failed, the name stays as it is on
both sides, and the two errors are forgotten. -/
theorem agree_bindElement (name : String) {source source' : Node}
    (hs : source.callName = source'.callName) {r r' : Except EvalError Value}
    (h : SameAttempt r r') : Agree Eq (bindElement name source r) (bindElement name source' r') := by
  cases h with
  | result v =>
    unfold bindElement Eval.bind Value.unwrapCall
    rw [hs]
    exact .refl _
  | error => exact .refl _

/-- Several names that take one result apart. The positions of the names do not matter, because no error is
ever located at them. -/
theorem agree_bindElements (source source' : Node) {r r' : Except EvalError Value}
    (h : SameAttempt r r') (index : Nat) (targets : List Target) :
    Agree Eq (bindElements source r index targets)
      (bindElements source' r' index (targets.map fun t => ⟨t.name, .start⟩)) := by
  induction targets generalizing index with
  | nil => exact .refl _
  | cons target targets ih =>
    have helement : SameAttempt (r.bind (Value.element index)) (r'.bind (Value.element index)) := by
      cases h with
      | result v =>
        show SameAttempt (v.element index) (v.element index)
        cases v.element index with
        | ok a => exact .result a
        | error e => exact .error rfl
      | error h => exact .error h
    rw [List.map_cons]
    unfold bindElements
    refine (agree_bindElement target.name rfl helement).andThen fun vars => ?_
    exact (ih (index + 1)).map _

end Eval

/-! ## 3. Trees without their positions -/

namespace Node

open Eval

/-- Which function a node calls does not depend on positions. Neither do the facts below, which are what
evaluation asks of a node's form. -/
theorem callName_unplaced (n : Node) : n.unplaced.callName = n.callName := by
  cases n <;> simp [unplaced, callName]

theorem isExtract_unplaced (n : Node) : n.unplaced.isExtract = n.isExtract := by
  cases n <;> simp [unplaced, isExtract]

/-- Positions do not matter for what is assigned. -/
theorem agree_bindOutcome (name : String) (n : Node) {r r' : Except EvalError Value}
    (h : SameAttempt r r') :
    Agree Eq (bindOutcome name n r) (bindOutcome name n.unplaced r') := by
  unfold bindOutcome
  rw [isExtract_unplaced]
  split
  · exact agree_bindElement name (callName_unplaced n).symm h
  · exact h.ofExcept.andThen fun v => agree_bindElement name (callName_unplaced n).symm (.result v)

theorem unwrapCall_unplaced (v : Value) (n : Node) : v.unwrapCall n.unplaced = v.unwrapCall n := by
  unfold Value.unwrapCall
  rw [callName_unplaced]

/-- How long the texts of a tree are bounds how deep expressions in strings can be nested. Positions are no
texts, so the bound stays; this lemma and the next three go through the parts of a node. -/
theorem longestTextAll_unplaced {ns : List Node}
    (h : ∀ m ∈ ns, m.unplaced.longestText = m.longestText) :
    longestTextAll (unplacedAll ns) = longestTextAll ns := by
  induction ns with
  | nil => rfl
  | cons n ns ih =>
    rw [unplacedAll, longestTextAll, longestTextAll, h n (by simp),
      ih fun m hm => h m (List.mem_cons_of_mem n hm)]

theorem longestTextPairs_unplaced {pairs : List (Target × Node)}
    (h : ∀ p ∈ pairs, p.2.unplaced.longestText = p.2.longestText) :
    longestTextPairs (unplacedPairs pairs) = longestTextPairs pairs := by
  induction pairs with
  | nil => rfl
  | cons p ps ih =>
    obtain ⟨target, n⟩ := p
    rw [unplacedPairs, longestTextPairs, longestTextPairs, h (target, n) (by simp),
      ih fun q hq => h q (List.mem_cons_of_mem _ hq)]

theorem longestTextOption_unplaced {o : Option Node}
    (h : ∀ m ∈ o, m.unplaced.longestText = m.longestText) :
    longestTextOption (unplacedOption o) = longestTextOption o := by
  cases o with
  | none => rfl
  | some n => exact h n rfl

/-- The longest text of a chain is that of its conditions and bodies, so it is the same without positions if
theirs is. -/
theorem longestTextBranches_unplaced {bs : List (Branch Node)}
    (h : ∀ b ∈ bs, (∀ m ∈ b.condition, m.unplaced.longestText = m.longestText) ∧
      ∀ m ∈ b.body, m.unplaced.longestText = m.longestText) :
    longestTextBranches (unplacedBranches bs) = longestTextBranches bs := by
  induction bs with
  | nil => rfl
  | cons b bs ih =>
    obtain ⟨condition, body, pos⟩ := b
    obtain ⟨hc, hb⟩ := h ⟨condition, body, pos⟩ (by simp)
    rw [unplacedBranches, longestTextBranches, longestTextBranches, longestTextOption_unplaced hc,
      longestTextAll_unplaced hb, ih fun b hb => h b (List.mem_cons_of_mem _ hb)]

/-- Positions are no text. -/
theorem longestText_unplaced (n : Node) : n.unplaced.longestText = n.longestText := by
  induction n using induction_children with
  | step n ih =>
    cases n with
    | literal | ident | envRef | comment => rfl
    | assign | destructure | extract | member | unary | group | inclusion =>
      simp only [unplaced, longestText]
      exact ih _ (by simp [children])
    | block _ _ body | container _ body | arrow _ _ _ body | pipeline body | map body
    | combinedMap body | list body | call _ body =>
      simp only [unplaced, longestText]
      exact longestTextAll_unplaced ih
    | assignEach pairs =>
      simp only [unplaced, longestText]
      exact longestTextPairs_unplaced fun p hp => ih p.2 (List.mem_map_of_mem hp)
    | binary op left right =>
      simp only [unplaced, longestText]
      rw [ih left (by simp [children]), ih right (by simp [children])]
    | ternary condition yes no =>
      simp only [unplaced, longestText]
      rw [ih condition (by simp [children]), ih yes (by simp [children]), ih no (by simp [children])]
    | control branches =>
      simp only [unplaced, longestText]
      have hmem : ∀ b ∈ branches, ∀ m ∈ b.condition.toList ++ b.body,
          m ∈ (control branches).children := fun b hb m hm => List.mem_flatMap.2 ⟨b, hb, hm⟩
      refine longestTextBranches_unplaced fun b hb => ⟨fun m hm => ?_, fun m hm => ?_⟩
      · exact ih m (hmem b hb m (List.mem_append_left _ (Option.mem_toList.2 hm)))
      · exact ih m (hmem b hb m (List.mem_append_right _ hm))
    | exec cmd args dir =>
      simp only [unplaced, longestText]
      rw [ih cmd (by simp [children]),
        longestTextOption_unplaced fun m hm => ih m (by simp [children, Option.mem_def.1 hm]),
        longestTextOption_unplaced fun m hm => ih m (by simp [children, Option.mem_def.1 hm])]

section Evaluation

variable (src : Source) (hooks : Hooks)

/-- A tree is evaluated like itself without positions. -/
def AgreesUnplaced (n : Node) : Prop :=
  Agree Eq (n.evalWith src hooks) (n.unplaced.evalWith src hooks)

variable {src hooks} {n : Node} {ns : List Node}

/-- An operand, a call taken apart, and what is done with its value. -/
theorem AgreesUnplaced.operand {β : Type} (h : n.AgreesUnplaced src hooks) {f g : Value → Eval β}
    (hf : ∀ v, Agree Eq (f v) (g v)) :
    Agree Eq (n.evalWith src hooks >>= fun v => ofExcept (v.unwrapCall n) >>= f)
      (n.unplaced.evalWith src hooks >>= fun v => ofExcept (v.unwrapCall n.unplaced) >>= g) := by
  refine Agree.andThen h fun v => ?_
  rw [unwrapCall_unplaced]
  exact (Agree.refl _).andThen hf

/-- An operand that is the result. -/
theorem AgreesUnplaced.last (h : n.AgreesUnplaced src hooks) :
    Agree Eq (n.evalWith src hooks >>= fun v => ofExcept (v.unwrapCall n))
      (n.unplaced.evalWith src hooks >>= fun v => ofExcept (v.unwrapCall n.unplaced)) := by
  refine Agree.andThen h fun v => ?_
  rw [unwrapCall_unplaced]
  exact .refl _

/-- Statements agree one by one. -/
theorem agree_evalStatements (h : ∀ m ∈ ns, m.AgreesUnplaced src hooks) :
    Agree Eq (evalStatements src hooks ns) (evalStatements src hooks (unplacedAll ns)) := by
  induction ns with
  | nil => exact .refl _
  | cons n ns ih =>
    rw [unplacedAll]
    unfold evalStatements
    refine (agree_locating src.file _ _ (h n (by simp))).andThen fun _ => ?_
    exact ih fun m hm => h m (List.mem_cons_of_mem n hm)

/-- Statements that are selected agree, if the selection does not look at positions. -/
theorem agree_evalSelected {selected : Node → Bool}
    (hs : ∀ m : Node, selected m.unplaced = selected m)
    (h : ∀ m ∈ ns, m.AgreesUnplaced src hooks) :
    Agree Eq (evalSelected src hooks selected ns)
      (evalSelected src hooks selected (unplacedAll ns)) := by
  induction ns with
  | nil => exact .refl _
  | cons n ns ih =>
    have hrest := ih fun m hm => h m (List.mem_cons_of_mem n hm)
    rw [unplacedAll]
    unfold evalSelected
    rw [hs]
    cases selected n with
    | true => exact Agree.andThen (h n (by simp)) fun _ => hrest
    | false => exact hrest

/-- Items agree one by one. -/
theorem agree_evalValues (h : ∀ m ∈ ns, m.AgreesUnplaced src hooks) :
    Agree Eq (evalValues src hooks ns) (evalValues src hooks (unplacedAll ns)) := by
  induction ns with
  | nil => exact .refl _
  | cons n ns ih =>
    rw [unplacedAll]
    unfold evalValues
    refine (h n (by simp)).operand fun v => ?_
    exact (ih fun m hm => h m (List.mem_cons_of_mem n hm)).map _

/-- A part that may be missing is missing on both sides. -/
theorem agree_evalOption {o : Option Node} (h : ∀ m ∈ o, m.AgreesUnplaced src hooks) :
    Agree Eq (evalOption src hooks o) (evalOption src hooks (unplacedOption o)) := by
  cases o with
  | none => exact .refl _
  | some n => exact (h n rfl).last

/-- Assignments of several values agree one by one. -/
theorem agree_evalPairs {pairs : List (Target × Node)}
    (h : ∀ p ∈ pairs, p.2.AgreesUnplaced src hooks) :
    Agree Eq (evalPairs src hooks pairs) (evalPairs src hooks (unplacedPairs pairs)) := by
  induction pairs with
  | nil => exact .refl _
  | cons p ps ih =>
    obtain ⟨target, n⟩ := p
    rw [unplacedPairs]
    unfold evalPairs
    refine (agree_attempt (h (target, n) (by simp))).bind fun r r' hr => ?_
    refine (agree_bindOutcome target.name n hr).andThen fun vars => ?_
    exact (ih fun q hq => h q (List.mem_cons_of_mem _ hq)).map _

/-- A chain takes the same link on both sides, as the values of the conditions are equal. -/
theorem agree_evalBranches {bs : List (Branch Node)}
    (hc : ∀ b ∈ bs, ∀ m ∈ b.condition, m.AgreesUnplaced src hooks)
    (hb : ∀ b ∈ bs, ∀ m ∈ b.body, m.AgreesUnplaced src hooks) :
    Agree Eq (evalBranches src hooks bs) (evalBranches src hooks (unplacedBranches bs)) := by
  induction bs with
  | nil => exact .refl _
  | cons b bs ih =>
    obtain ⟨condition, body, pos⟩ := b
    have hrest := ih (fun b h => hc b (List.mem_cons_of_mem _ h))
      fun b h => hb b (List.mem_cons_of_mem _ h)
    have hbody := agree_evalStatements (hb ⟨condition, body, pos⟩ (by simp))
    -- A link is taken or passed over on both sides, whichever the condition says.
    have hlink : ∀ taken : Bool,
        Agree Eq
          (if taken = true then do evalStatements src hooks body; return .undefined
            else evalBranches src hooks bs)
          (if taken = true then do evalStatements src hooks (unplacedAll body); return .undefined
            else evalBranches src hooks (unplacedBranches bs)) := by
      intro taken
      cases taken with
      | true => exact hbody.map _
      | false => exact hrest
    rw [unplacedBranches]
    unfold evalBranches
    cases condition with
    | none => exact hlink true
    | some n =>
      have hn := hc ⟨some n, body, pos⟩ (by simp) n rfl
      exact hn.operand fun v => (Agree.refl _).andThen hlink

/-- The steps of a pipeline without positions are its steps, with the same names and in the same order. -/
theorem steps_unplaced (h : ∀ m ∈ ns, ∀ target value style, m = .assign target value style →
    value.AgreesUnplaced src hooks) :
    Steps (Agree Eq) (stepsOf src hooks ns) (stepsOf src hooks (unplacedAll ns)) := by
  induction ns with
  | nil => exact .nil
  | cons n ns ih =>
    have hrest := ih fun m hm => h m (List.mem_cons_of_mem n hm)
    rw [unplacedAll]
    cases n with
    | assign target value style =>
      exact .cons ⟨rfl, h _ (by simp) target value style rfl⟩ hrest
    | _ => exact hrest

/-- The arrows of a pipeline are pairs of names. -/
theorem arrowsOf_unplacedAll (ns : List Node) : arrowsOf (unplacedAll ns) = arrowsOf ns := by
  induction ns with
  | nil => rfl
  | cons n ns ih =>
    unfold arrowsOf at ih ⊢
    rw [unplacedAll, List.filterMap_cons, List.filterMap_cons, ih]
    cases n <;> rfl

/-- The entries of a map or of a block agree as statements in a scope of their own. -/
theorem agree_entries (h : ∀ m ∈ ns, m.AgreesUnplaced src hooks) :
    Agree Eq (inChild (evalStatements src hooks ns))
      (inChild (evalStatements src hooks (unplacedAll ns))) :=
  agree_within _ (agree_evalStatements h)

/-- The step of the induction. A pipeline runs the values of its assignments and not the assignments,
which is why two levels below the node are spoken of. -/
theorem agreesUnplaced_of_children (n : Node) (ih : ∀ m ∈ n.children, m.AgreesUnplaced src hooks)
    (ih' : ∀ m ∈ n.children, ∀ k ∈ m.children, k.AgreesUnplaced src hooks) :
    n.AgreesUnplaced src hooks := by
  unfold AgreesUnplaced
  cases n with
  | assign target value style =>
    have hv := ih value (by simp [children])
    simp only [unplaced, evalWith]
    refine (agree_attempt hv).bind fun r r' hr => ?_
    exact (agree_bindOutcome target.name value hr).map _
  | assignEach pairs =>
    simp only [unplaced, evalWith]
    exact (agree_evalPairs fun p hp => ih p.2 (List.mem_map_of_mem hp)).map _
  | destructure targets source =>
    simp only [unplaced, evalWith]
    refine (agree_attempt (ih source (by simp [children]))).bind fun r r' hr => ?_
    exact (agree_bindElements source source.unplaced hr 0 targets).map _
  | block kind label body pos =>
    simp only [unplaced, evalWith]
    exact (agree_entries ih).map _
  | container kind body pos =>
    simp only [unplaced, evalWith]
    exact (agree_entries ih).map _
  | arrow relation source target body pos =>
    simp only [unplaced, evalWith]
    exact (agree_entries ih).map _
  | map entries =>
    simp only [unplaced, evalWith]
    exact (agree_entries ih).map _
  | combinedMap items =>
    simp only [unplaced, evalWith]
    refine (agree_within _ ?_).map _
    refine (agree_evalSelected (fun m => by rw [isBlock_unplaced]) ih).andThen fun _ => ?_
    exact agree_evalSelected isBlock_unplaced ih
  | list items =>
    simp only [unplaced, evalWith]
    exact (agree_evalValues ih).map _
  | literal v => exact .refl _
  | ident name => exact .refl _
  | member left name =>
    simp only [unplaced, evalWith]
    exact (ih left (by simp [children])).operand fun v => .refl _
  | binary op left right =>
    simp only [unplaced, evalWith]
    refine (ih left (by simp [children])).operand fun l => ?_
    split
    · exact .refl _
    · exact (ih right (by simp [children])).operand fun r => .refl _
  | unary op operand =>
    simp only [unplaced, evalWith]
    exact (ih operand (by simp [children])).operand fun v => .refl _
  | ternary condition yes no =>
    simp only [unplaced, evalWith]
    refine Agree.andThen (ih condition (by simp [children])) fun c => ?_
    refine (Agree.refl _).andThen fun taken => ?_
    cases taken with
    | true => exact (ih yes (by simp [children])).last
    | false => exact (ih no (by simp [children])).last
  | group inner =>
    simp only [unplaced, evalWith]
    exact ih inner (by simp [children])
  | call name args pos =>
    simp only [unplaced, evalWith]
    exact (agree_evalValues ih).map _
  | envRef name default => exact .refl _
  | inclusion target pos =>
    simp only [unplaced, evalWith]
    exact (ih target (by simp [children])).operand fun v => .refl _
  | comment text => exact .refl _
  | control branches =>
    simp only [unplaced, evalWith]
    have hmem : ∀ b ∈ branches, ∀ m ∈ b.condition.toList ++ b.body,
        m ∈ (control branches).children := fun b hb m hm => List.mem_flatMap.2 ⟨b, hb, hm⟩
    refine agree_evalBranches (fun b hb m hm => ?_) fun b hb m hm => ?_
    · exact ih m (hmem b hb m (List.mem_append_left _ (Option.mem_toList.2 hm)))
    · exact ih m (hmem b hb m (List.mem_append_right _ hm))
  | pipeline body pos =>
    -- The arrows of a pipeline have positions, but none of them counts for its order.
    simp only [unplaced, evalWith]
    rw [arrowsOf_unplacedAll]
    refine agree_runPipeline (steps_unplaced fun m hm target value style he => ?_) _
    exact ih' m hm value (by simp [he, children])
  | exec cmd args dir pos =>
    simp only [unplaced, evalWith]
    split
    · refine (ih cmd (by simp [children])).operand fun c => ?_
      refine (Agree.refl _).andThen fun program => ?_
      refine (agree_evalOption fun m hm => ?_).andThen fun a => ?_
      · exact ih m (by simp [children, Option.mem_def.1 hm])
      · refine (agree_evalOption fun m hm => ?_).map _
        exact ih m (by simp [children, Option.mem_def.1 hm])
    · exact .refl _
  | extract source index =>
    simp only [unplaced, evalWith]
    exact Agree.map (ih source (by simp [children])) _

/-- **A tree is evaluated like itself without positions.** The induction speaks of a node and of those
directly below it, since a pipeline evaluates the values of its assignments. -/
theorem agree_unplaced (n : Node) : n.AgreesUnplaced src hooks := by
  have both : n.AgreesUnplaced src hooks ∧ ∀ m ∈ n.children, m.AgreesUnplaced src hooks := by
    induction n using induction_children with
    | step n ih =>
      have hbelow : ∀ m ∈ n.children, m.AgreesUnplaced src hooks := fun m hm => (ih m hm).1
      exact ⟨agreesUnplaced_of_children n hbelow fun m hm => (ih m hm).2, hbelow⟩
  exact both.1

/-- Trees that differ in their positions alone are evaluated alike. -/
theorem agree_evalWith {n n' : Node} (h : n.unplaced = n'.unplaced) :
    Agree Eq (n.evalWith src hooks) (n'.evalWith src hooks) := by
  have h1 : n.AgreesUnplaced src hooks := agree_unplaced n
  rw [AgreesUnplaced, h] at h1
  exact h1.trans (agree_unplaced n').symm

end Evaluation

/-! ## 4. Documents -/

variable {ns ns' : List Node}

/-- Two documents that are equal but for positions run alike. Both agree with the one without positions at
all. -/
theorem agree_run (h : unplacedAll ns = unplacedAll ns') (src : Source) :
    Agree Eq (src.run ns) (src.run ns') := by
  have hlongest : longestTextAll ns = longestTextAll ns' := by
    rw [← longestTextAll_unplaced fun m _ => longestText_unplaced m, h,
      longestTextAll_unplaced fun m _ => longestText_unplaced m]
  unfold Source.run
  rw [hlongest]
  refine (Agree.refl _).andThen fun w => ?_
  have hunplaced : ∀ ms, Agree Eq (evalStatements src (src.hooks w (longestTextAll ns')) ms)
      (evalStatements src (src.hooks w (longestTextAll ns')) (unplacedAll ms)) := fun ms =>
    agree_evalStatements fun m _ => agree_unplaced m
  have h1 := hunplaced ns
  rw [h] at h1
  exact h1.trans (hunplaced ns').symm

/-- Expressions that differ in their positions alone have the same value, or fail for one cause. -/
theorem agree_evalValue {n n' : Node} (h : n.unplaced = n'.unplaced) (src : Source) :
    Agree Eq (n.evalValue src) (n'.evalValue src) := by
  have hlongest : n.longestText = n'.longestText := by
    rw [← longestText_unplaced n, h, longestText_unplaced]
  have hunwrap : ∀ v : Value, v.unwrapCall n = v.unwrapCall n' := by
    intro v
    rw [← unwrapCall_unplaced v n, h, unwrapCall_unplaced]
  unfold Node.evalValue Node.eval
  rw [hlongest]
  refine ((Agree.refl _).andThen fun w => ?_).andThen fun v => hunwrap v ▸ Agree.refl _
  exact agree_evalWith h

end Node

namespace Run

variable {α : Type}

/-- Runs that, in every world, have the same effect on it and the same result or both stop. -/
def Equivalent (x y : Run α) : Prop :=
  ∀ w, (x w).2 = (y w).2 ∧
    ((∃ a, (x w).1 = .ok a ∧ (y w).1 = .ok a) ∨
      ∃ stop stop', (x w).1 = .error stop ∧ (y w).1 = .error stop')

/-- Outcomes of runs that differ at most in the places of their errors: one result, errors with one
cause, or the same breaking off. -/
inductive Alike : Except Stop α → Except Stop α → Prop
  | result (a : α) : Alike (.ok a) (.ok a)
  | error {e e' : EvalError} (h : e.root = e'.root) :
      Alike (.error (.error (.eval e))) (.error (.error (.eval e')))
  | abort (message : String) : Alike (.error (.abort message)) (.error (.abort message))

/-- Runs that, in every world, have the same effect on it and outcomes which are alike. -/
def Agree (x y : Run α) : Prop :=
  ∀ w, (x w).2 = (y w).2 ∧ Alike (x w).1 (y w).1

/-- Evaluations that agree are equivalent for whoever calls them: the same value and the same bindings, or
failures of one kind with one message. -/
theorem Agree.equivalent {x y : Run α} (h : Agree x y) : x.Equivalent y := by
  intro w
  obtain ⟨hworld, h⟩ := h w
  refine ⟨hworld, ?_⟩
  generalize (x w).1 = a at h
  generalize (y w).1 = b at h
  cases h with
  | result a => exact .inl ⟨a, rfl, rfl⟩
  | error => exact .inr ⟨_, _, rfl, rfl⟩
  | abort message => exact .inr ⟨_, _, rfl, rfl⟩

end Run

/-- **Documents that differ in their positions alone have the same variables,** or fail for one
cause. -/
theorem Engine.evalDocument_agree {ns ns' : List Node}
    (h : Node.unplacedAll ns = Node.unplacedAll ns') (src : Source) :
    Run.Agree (evalDocument src ns) (evalDocument src ns') := by
  intro w
  obtain ⟨h1, h2⟩ := Node.agree_run h src ⟨.root [], w⟩
  rw [evalDocument_apply, evalDocument_apply]
  generalize src.run ns ⟨.root [], w⟩ = a at h1 h2
  generalize src.run ns' ⟨.root [], w⟩ = b at h1 h2
  obtain ⟨a, s⟩ := a
  obtain ⟨b, s'⟩ := b
  obtain rfl : s = s' := h2
  cases h1 with
  | result h => exact ⟨rfl, .result _⟩
  | error h => exact ⟨rfl, .error h⟩
  | abort message => exact ⟨rfl, .abort message⟩

/-- Documents that differ in their positions alone have the same variables, or both fail. -/
theorem Engine.evalDocument_equivalent {ns ns' : List Node}
    (h : Node.unplacedAll ns = Node.unplacedAll ns') (src : Source) :
    (evalDocument src ns).Equivalent (evalDocument src ns') :=
  (evalDocument_agree h src).equivalent

end BlockConfig
