import BlockConfig.Proofs.Eval.Activity
import BlockConfig.Proofs.Inclusion.Steps

/-!
Before a part of an evaluation and after it.

A part begins some steps after the activity that it is a part of, and when it has ended, that activity
goes on. Both are shown along `Eval.Runs`. What happens before is a path of steps like any other
(`Activity.Part.leads`). What happens after is one too, except that an inclusion ends with putting its
document into the cache, and whether it may do that depends on what has been fetched before. So of the
time after a part only this is said: nothing that has happened is undone, and nothing that is in the
cache is changed (`World.Later`, `Activity.Part.lasts`).
-/

set_option autoImplicit false

namespace BlockConfig

/-- What a world may have become while an evaluation goes on. -/
structure World.Later (w w' : World) : Prop where
  trace : w.trace <+: w'.trace
  kept {key : String} {nodes : List Node} (cached : Table.find? w.cache key = some nodes) :
    Table.find? w'.cache key = some nodes

namespace World.Later

theorem refl (w : World) : Later w w :=
  ⟨List.prefix_rfl, id⟩

theorem trans {w w' w'' : World} (h : Later w w') (h' : Later w' w'') : Later w w'' :=
  ⟨h.trace.trans h'.trace, fun cached => h'.kept (h.kept cached)⟩

end World.Later

/-- What comes after steps is later: steps add to the trace, and a document stays in the cache. -/
theorem Moment.Path.later {opened : List String} {m m' : Moment} (path : Path opened m m') :
    m.world.Later m'.world := by
  obtain ⟨events, htrace, -⟩ := path.grows
  exact ⟨⟨events, htrace.symm⟩, path.kept⟩

namespace Eval

open Moment

variable {α β : Type} {s t u : State}

/-- Whatever has happened before, one state is had from another one step by step. -/
def Leads (s t : State) : Prop :=
  ∀ since : List Happening, ∃ since', Path [] ⟨s.world, since⟩ ⟨t.world, since'⟩

/-- A state leads to itself, by no step. -/
theorem Leads.refl (s : State) : Leads s s :=
  fun since => ⟨since, .refl⟩

/-- Steps after steps are steps. -/
theorem Leads.trans (h : Leads s t) (h' : Leads t u) : Leads s u := by
  intro since
  obtain ⟨since₁, path⟩ := h since
  obtain ⟨since₂, path'⟩ := h' since₁
  exact ⟨since₂, path.trans path'⟩

/-- A state that another one leads to is later. -/
theorem Leads.later (h : Leads s t) : s.world.Later t.world := by
  obtain ⟨_, path⟩ := h []
  exact path.later

/-- What proceeds step by step leads from where it begins to where it ends, however it ends. -/
theorem Proceeds.leads {x : Eval α} {r : Except Fault α} (h : Proceeds [] x) (ran : x s = (r, t)) :
    Leads s t := by
  have hs : Leads s (x s).2 := h s
  rwa [ran] at hs

/-- Whatever proceeds while some documents are open proceeds as well when none are. -/
theorem Proceeds.anywhere {opened : List String} {x : Eval α} (h : Proceeds opened x) :
    Proceeds [] x := by
  intro s since
  obtain ⟨since', path⟩ := h s since
  exact ⟨since', path.fewer (List.nil_subset _)⟩

/-- Where the tree is left, evaluation proceeds step by step. -/
structure HooksProceed (hooks : Hooks) : Prop where
  splice (m : Node) : Proceeds [] (hooks.splice m)
  inclusion (target : String) : Proceeds [] (hooks.inclusion target)

section

variable {src : Source} {hooks : Hooks} (hooked : HooksProceed hooks) {n m : Node}

include hooked

/-- All evaluations of trees proceed step by step then. -/
theorem HooksProceed.evalWith (n : Node) : Proceeds [] (n.evalWith src hooks) :=
  (pervasive_proceeds []).evalWith hooked.splice hooked.inclusion n

/-- With such hooks the evaluation of every node proceeds, which is what the lists of nodes ask for. -/
theorem HooksProceed.related (n : Node) :
    Related (fun x _ => Proceeds [] x) src src hooks hooks n :=
  hooked.evalWith n

theorem HooksProceed.evalStatements (ns : List Node) : Proceeds [] (evalStatements src hooks ns) :=
  (pervasive_proceeds []).congruence.evalStatements ⟨rfl, rfl, rfl⟩ fun n _ => hooked.related n

theorem HooksProceed.evalSelected (selected : Node → Bool) (ns : List Node) :
    Proceeds [] (evalSelected src hooks selected ns) :=
  (pervasive_proceeds []).congruence.evalSelected selected fun n _ => hooked.related n

theorem HooksProceed.evalValues (ns : List Node) : Proceeds [] (evalValues src hooks ns) :=
  (pervasive_proceeds []).congruence.evalValues fun n _ => hooked.related n

theorem HooksProceed.evalOption (o : Option Node) : Proceeds [] (evalOption src hooks o) :=
  (pervasive_proceeds []).congruence.evalOption fun n _ => hooked.related n

theorem HooksProceed.evalPairs (pairs : List (Target × Node)) :
    Proceeds [] (evalPairs src hooks pairs) :=
  (pervasive_proceeds []).congruence.evalPairs fun p _ => hooked.related p.2

theorem HooksProceed.evalBranches (bs : List (Branch Node)) :
    Proceeds [] (evalBranches src hooks bs) :=
  (pervasive_proceeds []).congruence.evalBranches ⟨rfl, rfl, rfl⟩ (fun _ _ n _ => hooked.related n)
    fun _ _ n _ => hooked.related n

theorem HooksProceed.joinPieces (whole : String) (pieces : List Piece) :
    Proceeds [] (joinPieces src hooks whole pieces) :=
  @Congruence.joinPieces _ (pervasive_proceeds []).congruence src src hooks hooks ⟨rfl, rfl, rfl⟩ whole
    pieces fun _ _ m _ => hooked.splice m

theorem HooksProceed.runSteps (body : List Node) (output : Value) (names : List String) :
    Proceeds [] (runSteps (stepsOf src hooks body) output names) :=
  (pervasive_proceeds []).congruence.runSteps
    (steps_stepsOf fun _ _ _ value _ _ => hooked.related value) output names

/-! ## 1. Before a part -/

/-- A statement that has finished has led to the state after it. -/
theorem Finishes.leads (h : Finishes src hooks n s t) : Leads s t := by
  obtain ⟨v, ran⟩ := h
  exact (hooked.evalWith n).leads ran

/-- **A part begins after steps of the activity.** Those are what the node has run before it comes to the
part, in the order in which it runs its parts. -/
theorem Runs.leads {here : Bool} {task : Task} (runs : Runs src hooks n s here task t) :
    Leads s t := by
  have hP := pervasive_proceeds []
  -- The state is led on by what runs in between: operands, values that are bound, pieces of a text, and
  -- steps of a pipeline.
  refine runs.keeps (I := Leads s) (fun _ h => h) ?_ ?_ ?_ ?_ (.refl s)
  · exact fun _ _ _ finishes h => h.trans (finishes.leads hooked)
  · intro pair t u ⟨outcome, t', vars, ran, bound⟩ h
    have binds : Proceeds [] (bindOutcome pair.1.name pair.2 outcome) :=
      hP.congruence.bindOutcome pair.1.name pair.2 outcome
    exact (h.trans ((hooked.evalWith pair.2).attempt.leads ran)).trans (binds.leads bound)
  · intro piece t u fills h
    cases piece with
    | text cs =>
      cases fills
      exact h
    | hole inner =>
      obtain ⟨text, filled⟩ := fills
      exact h.trans ((hP.fillHole hooked.splice inner).leads filled)
    | unclosed => exact fills.elim
  · intro steps name t u done h
    unfold StepDone at done
    cases found : steps.lookup name with
    | none =>
      rw [found] at done
      cases done
      exact h
    | some m =>
      rw [found] at done
      obtain ⟨v, w, u', ran, -, rfl⟩ := done
      have hu : Leads t u' := (hooked.evalWith m).leads ran
      exact h.trans hu

end

/-! ## 2. After a part -/

/-- What has its turn is the first of what is left, if each step leaves what comes after it to do. -/
theorem InTurn.rest {γ : Type} {step : γ → State → State → Prop} {f : List γ → State → State}
    (next : ∀ x xs s t, step x s t → f (x :: xs) s = f xs t) {xs : List γ} {x : γ}
    (turn : InTurn step xs s x t) : ∃ rest, f xs s = f (x :: rest) t := by
  induction turn with
  | @first x xs => exact ⟨xs, rfl⟩
  | next passed _ ih =>
    obtain ⟨rest, same⟩ := ih
    exact ⟨rest, (next _ _ _ _ passed).trans same⟩

/-- What the first of two evaluations leaves lasts. -/
theorem later_bind {x : Eval α} {f : α → Eval β} (hf : ∀ a, Proceeds [] (f a))
    (h : t.world.Later (x s).2.world) : t.world.Later ((x >>= f) s).2.world := by
  rw [bind_apply]
  generalize x s = ending at h
  rcases ending with ⟨fault | a, u⟩
  · exact h
  · exact h.trans ((hf a).leads rfl).later

/-- After the first of two evaluations there is the second one. -/
theorem state_bind_of_ok {x : Eval α} {f : α → Eval β} {a : α} (ran : x s = (.ok a, t)) :
    ((x >>= f) s).2 = (f a t).2 := by
  rw [bind_apply, ran]

/-- What is done with a result when that is not evaluation any more leaves the state alone. -/
theorem state_map (x : Eval α) (f : α → β) (s : State) :
    ((x >>= fun a => Pure.pure (f a)) s).2 = (x s).2 := by
  rw [bind_apply]
  rcases x s with ⟨fault | a, t⟩ <;> rfl

/-- Noting where an error comes from changes nothing if there is none. -/
theorem locating_of_ok {x : Eval α} {a : α} (file : String) (pos : Option Position)
    (ran : x s = (.ok a, t)) : locating file pos x s = (.ok a, t) := by
  unfold locating
  rw [ran]

section

variable {src : Source} {hooks : Hooks} (hooked : HooksProceed hooks) {n m : Node}

/-- Behind an operand whose value is known only what is done with the value is left. -/
theorem state_operand_of_gives {v : Value} {f : Value → Eval β} (gives : Gives src hooks n s v t) :
    ((n.evalWith src hooks >>= fun v => ofExcept (v.unwrapCall n) >>= f) s).2 = (f v t).2 := by
  obtain ⟨r, ran, unwrapped⟩ := gives
  rw [state_bind_of_ok ran, unwrapped]
  rfl

/-- An operand and what is done with its value. -/
theorem later_operand {f : Value → Eval β} (hf : ∀ v, Proceeds [] (f v)) :
    (n.evalWith src hooks s).2.world.Later
      ((n.evalWith src hooks >>= fun v => ofExcept (v.unwrapCall n) >>= f) s).2.world := by
  have hP := pervasive_proceeds []
  exact later_bind (fun _ => hP.bind (hP.congruence.ofExcept _) hf) (.refl _)

/-- An operand that is the result. -/
theorem later_lastOperand : (n.evalWith src hooks s).2.world.Later
    ((n.evalWith src hooks >>= fun v => ofExcept (v.unwrapCall n)) s).2.world :=
  later_bind (fun _ => (pervasive_proceeds []).congruence.ofExcept _) (.refl _)

include hooked

/-! ### What has its turn -/

/-- What a statement does in its turn lasts until all statements are through. Those before it have led to
the state it begins in, those behind it proceed from the state it leaves. -/
theorem later_evalStatements {ns : List Node} (turn : InTurn (Finishes src hooks) ns s m t) :
    (m.evalWith src hooks t).2.world.Later (evalStatements src hooks ns s).2.world := by
  obtain ⟨rest, same⟩ := turn.rest (f := fun ns s => (evalStatements src hooks ns s).2) <| by
    rintro n ns s t ⟨v, ran⟩
    exact state_bind_of_ok (locating_of_ok _ _ ran)
  rw [same]
  refine later_bind (fun _ => hooked.evalStatements rest) ?_
  rw [state_locating]
  exact .refl _

/-- The same for the statements that are selected; the others are passed over without an effect. -/
theorem later_evalSelected {ns : List Node} {selected : Node → Bool}
    (turn : InTurn (Finishes src hooks) (ns.filter selected) s m t) :
    (m.evalWith src hooks t).2.world.Later (evalSelected src hooks selected ns s).2.world := by
  induction ns generalizing s with
  | nil => cases turn
  | cons n ns ih =>
    unfold BlockConfig.evalSelected
    cases chosen : selected n with
    | false =>
      rw [List.filter_cons_of_neg (by rw [chosen]; decide)] at turn
      exact ih turn
    | true =>
      rw [List.filter_cons_of_pos chosen] at turn
      cases turn with
      | first => exact later_bind (fun _ => hooked.evalSelected selected ns) (.refl _)
      | next passed later =>
        obtain ⟨v, ran⟩ := passed
        rw [if_pos rfl, state_bind_of_ok ran]
        exact ih later

omit hooked in
/-- What has its turn among the entries that are selected and others behind them. -/
theorem selected_cases {ns ms : List Node} {selected : Node → Bool}
    (turn : InTurn (Finishes src hooks) (ns.filter selected ++ ms) s m t) :
    InTurn (Finishes src hooks) (ns.filter selected) s m t ∨
      ∃ u, evalSelected src hooks selected ns s = (.ok (), u) ∧
        InTurn (Finishes src hooks) ms u m t := by
  induction ns generalizing s with
  | nil => exact .inr ⟨s, rfl, turn⟩
  | cons n ns ih =>
    unfold BlockConfig.evalSelected
    cases chosen : selected n with
    | false =>
      rw [List.filter_cons_of_neg (by rw [chosen]; decide)] at turn ⊢
      exact ih turn
    | true =>
      rw [List.filter_cons_of_pos chosen] at turn ⊢
      cases turn with
      | first => exact .inl .first
      | next passed later =>
        rcases ih later with later | ⟨u, ran, later⟩
        · exact .inl (.next passed later)
        · obtain ⟨v, passed⟩ := passed
          refine .inr ⟨u, ?_, later⟩
          rw [if_pos rfl, bind_apply, passed]
          exact ran

/-- The same for values in turn. -/
theorem later_evalValues {ns : List Node}
    (turn : InTurn (fun k s t => ∃ v, Gives src hooks k s v t) ns s m t) :
    (m.evalWith src hooks t).2.world.Later (evalValues src hooks ns s).2.world := by
  obtain ⟨rest, same⟩ := turn.rest (f := fun ns s => (evalValues src hooks ns s).2) <| by
    rintro n ns s t ⟨v, gives⟩
    exact (state_operand_of_gives gives).trans (state_map _ _ _)
  rw [same]
  exact later_operand fun v => (pervasive_proceeds []).map (hooked.evalValues rest) _

/-- The same for the values of an assignment to several names, of which some may fail without ending it. -/
theorem later_evalPairs {pairs : List (Target × Node)} {target : Target}
    (turn : InTurn (Assigns src hooks) pairs s (target, m) t) :
    (m.evalWith src hooks t).2.world.Later (evalPairs src hooks pairs s).2.world := by
  have hP := pervasive_proceeds []
  obtain ⟨rest, same⟩ := turn.rest (f := fun pairs s => (evalPairs src hooks pairs s).2) <| by
    rintro ⟨target, n⟩ pairs s t ⟨outcome, u, vars, ran, bound⟩
    exact (state_bind_of_ok ran).trans ((state_bind_of_ok bound).trans (state_map _ _ _))
  rw [same]
  refine later_bind (fun outcome => ?_) ?_
  · exact hP.bind (hP.congruence.bindOutcome _ _ _) fun vars => hP.map (hooked.evalPairs rest) _
  · rw [state_attempt]
    exact .refl _

omit hooked in
/-- What is left to do once a condition has been decided. -/
theorem state_of_decides {taken : Bool} {b : Branch Node} {bs : List (Branch Node)}
    (decided : Decides src hooks taken b s t) :
    (evalBranches src hooks (b :: bs) s).2 =
      if taken = true then (evalStatements src hooks b.body t).2
      else (evalBranches src hooks bs t).2 := by
  obtain ⟨condition, body, pos⟩ := b
  conv_lhs => unfold BlockConfig.evalBranches
  cases condition with
  | none =>
    obtain ⟨rfl, rfl⟩ := decided
    exact state_map (BlockConfig.evalStatements src hooks body) _ _
  | some n =>
    obtain ⟨v, gives, held⟩ := decided
    refine (state_operand_of_gives gives).trans ?_
    rw [held]
    cases taken with
    | true => exact state_map (BlockConfig.evalStatements src hooks body) _ _
    | false => rfl

/-- The same for a condition of a chain that is reached because those before it do not hold. -/
theorem later_condition {bs : List (Branch Node)} {body : List Node} {pos : Position}
    (turn : InTurn (Decides src hooks false) bs s ⟨some m, body, pos⟩ t) :
    (m.evalWith src hooks t).2.world.Later (evalBranches src hooks bs s).2.world := by
  have hP := pervasive_proceeds []
  obtain ⟨rest, same⟩ := turn.rest (f := fun bs s => (evalBranches src hooks bs s).2)
    fun b bs s t decided => state_of_decides decided
  rw [same]
  refine later_operand fun v => hP.bind (hP.congruence.ofExcept _) fun taken => ?_
  cases taken with
  | true => exact hP.map (hooked.evalStatements body) _
  | false => exact hooked.evalBranches rest

/-- The same for a statement in the link that is taken. -/
theorem later_branch {bs : List (Branch Node)} {b : Branch Node}
    (turn : InTurn (Decides src hooks false) bs s b t) (taken : Decides src hooks true b t u) {v : State}
    (later : InTurn (Finishes src hooks) b.body u m v) :
    (m.evalWith src hooks v).2.world.Later (evalBranches src hooks bs s).2.world := by
  obtain ⟨rest, same⟩ := turn.rest (f := fun bs s => (evalBranches src hooks bs s).2)
    fun b bs s t decided => state_of_decides decided
  rw [same, state_of_decides taken, if_pos rfl]
  exact later_evalStatements hooked later

/-- The same for the hole of a text, which has its turn when the pieces in front of it have been filled. -/
theorem later_joinPieces {whole : String} {pieces : List Piece} {inner : List Char}
    (turn : InTurn (Fills src hooks) pieces s (.hole inner) t)
    (read : Hole.read inner src.file = .expression m) :
    (hooks.splice m t).2.world.Later (joinPieces src hooks whole pieces s).2.world := by
  obtain ⟨rest, same⟩ := turn.rest (f := fun ps s => (joinPieces src hooks whole ps s).2) <| by
    intro piece pieces s t fills
    cases piece with
    | text cs =>
      cases fills
      exact state_map _ _ _
    | hole inner =>
      obtain ⟨text, filled⟩ := fills
      exact (state_bind_of_ok filled).trans (state_map _ _ _)
    | unclosed => exact fills.elim
  rw [same]
  refine later_bind (fun here => (pervasive_proceeds []).map (hooked.joinPieces whole rest) _) ?_
  unfold Eval.fillHole
  rw [read]
  dsimp only
  rw [state_map]
  exact .refl _

omit hooked in
/-- The result so far makes no difference to what the other steps of a pipeline do. -/
theorem state_runSteps (steps : List (String × Eval Value)) (output output' : Value)
    (names : List String) (s : State) :
    (runSteps steps output names s).2 = (runSteps steps output' names s).2 := by
  induction names with
  | nil => rfl
  | cons name names ih =>
    unfold Eval.runSteps
    cases steps.lookup name with
    | none => exact ih
    | some act => rfl

omit hooked in
/-- A step of a pipeline that has been done leaves the state from which the others go on, and its name bound
to what it gave. -/
theorem state_of_stepDone {body : List Node} {output : Value} {name : String} {names : List String}
    (done : StepDone src hooks (Node.stepNodes body) name s t) :
    (runSteps (stepsOf src hooks body) output (name :: names) s).2 =
      (runSteps (stepsOf src hooks body) output names t).2 := by
  unfold StepDone at done
  conv_lhs => unfold Eval.runSteps
  rw [Inherited.lookup_stepsOf]
  cases found : (Node.stepNodes body).lookup name with
  | none =>
    rw [found] at done
    cases done
    rfl
  | some n =>
    rw [found] at done
    obtain ⟨v, w, u, ran, passed, rfl⟩ := done
    refine (state_bind_of_ok ran).trans ?_
    rw [passed]
    exact state_runSteps _ _ _ _ _

/-- The same for a step of a pipeline in its turn. The step is found by its name, so it is the first one of
that name that runs. -/
theorem later_runSteps {body : List Node} {output : Value} {names : List String} {name : String}
    (turn : InTurn (StepDone src hooks (Node.stepNodes body)) names s name t)
    (found : (Node.stepNodes body).lookup name = some m) :
    (m.evalWith src hooks t).2.world.Later
      (runSteps (stepsOf src hooks body) output names s).2.world := by
  have hP := pervasive_proceeds []
  obtain ⟨rest, same⟩ := turn.rest
    (f := fun names s => (runSteps (stepsOf src hooks body) output names s).2)
    fun name names s t done => state_of_stepDone done
  rw [same]
  unfold Eval.runSteps
  rw [Inherited.lookup_stepsOf, found]
  refine later_bind (fun v => hP.bind (hP.congruence.ofExcept _) fun v => ?_) (.refl _)
  exact hP.bind (hP.congruence.set _ _) fun _ => hooked.runSteps body v rest

/-! ### What a node runs -/

/-- What an operand does that a node begins with lasts until the end of the node. What the node does with
the value differs from node to node, but all of it proceeds. -/
theorem later_of_operand? (first : n.operand? = some m) :
    (m.evalWith src hooks s).2.world.Later (n.evalWith src hooks s).2.world := by
  have hP := pervasive_proceeds []
  -- Assignments and destructurings go on when their value has failed, from the state in which it did.
  have attempted {f : Except EvalError Value → Eval Value} (hf : ∀ r, Proceeds [] (f r)) :
      (m.evalWith src hooks s).2.world.Later
        ((attempt (m.evalWith src hooks) >>= f) s).2.world := by
    refine later_bind hf ?_
    rw [state_attempt]
    exact .refl _
  cases n with
  | assign target value style =>
    cases first
    simp only [Node.evalWith]
    exact attempted fun outcome => hP.map (hP.congruence.bindOutcome _ _ outcome) _
  | destructure targets source =>
    cases first
    simp only [Node.evalWith]
    exact attempted fun outcome => hP.map (hP.congruence.bindElements _ outcome 0 targets) _
  | extract source index =>
    cases first
    simp only [Node.evalWith]
    exact later_bind (fun v => hP.congruence.ofExcept _) (.refl _)
  | member left name =>
    cases first
    simp only [Node.evalWith]
    refine later_operand fun target => hP.bind hP.world fun w => ?_
    exact hP.bind (.of_world_eq fun _ => rfl) fun scope => hP.congruence.ofExcept _
  | binary op left right =>
    cases first
    simp only [Node.evalWith]
    refine later_operand fun l => ?_
    split
    · exact hP.congruence.pure l
    · refine hP.bind (hooked.evalWith right) fun r => ?_
      exact hP.bind (hP.congruence.ofExcept _) fun r => hP.congruence.ofExcept _
  | unary op operand =>
    cases first
    simp only [Node.evalWith]
    exact later_operand fun v => hP.congruence.ofExcept _
  | ternary condition yes no =>
    cases first
    simp only [Node.evalWith]
    refine later_bind (fun c => hP.bind (hP.congruence.ofExcept _) fun taken => ?_) (.refl _)
    cases taken with
    | true => exact hP.bind (hooked.evalWith yes) fun v => hP.congruence.ofExcept _
    | false => exact hP.bind (hooked.evalWith no) fun v => hP.congruence.ofExcept _
  | group inner =>
    cases first
    simp only [Node.evalWith]
    exact .refl _
  | inclusion target pos =>
    cases first
    simp only [Node.evalWith]
    refine later_operand fun v => ?_
    split
    · exact hooked.inclusion _
    · exact hP.congruence.fail _
  | _ => cases first

/-- What an item of a list or an argument of a call does lasts, through the call as well. -/
theorem later_of_items? {ms : List Node} (items : n.items? = some ms)
    (turn : InTurn (fun k s t => ∃ v, Gives src hooks k s v t) ms s m t) :
    (m.evalWith src hooks t).2.world.Later (n.evalWith src hooks s).2.world := by
  have hP := pervasive_proceeds []
  cases n with
  | list ns =>
    cases items
    simp only [Node.evalWith]
    rw [state_map]
    exact later_evalValues hooked turn
  | call name args pos =>
    cases items
    simp only [Node.evalWith]
    refine later_bind (fun values => ?_) (later_evalValues hooked turn)
    exact hP.bind (hP.congruence.ofExcept _) fun f => hP.called f values
  | _ => cases items

/-- What a statement in a body does lasts. The body has a scope of its own, but the world is the same inside
and outside. -/
theorem later_of_body? {ms : List Node} (body : n.body? = some ms)
    (turn : InTurn (Finishes src hooks) ms s.inside m t) :
    (m.evalWith src hooks t).2.world.Later (n.evalWith src hooks s).2.world := by
  have hP := pervasive_proceeds []
  have inside : (m.evalWith src hooks t).2.world.Later
      (inChild (evalStatements src hooks ms) s).2.world := by
    unfold inChild
    rw [world_within]
    exact later_evalStatements hooked turn
  cases n with
  | block kind label ns pos =>
    cases body
    simp only [Node.evalWith]
    exact later_bind (fun _ => hP.congruence.registerBlock _ _ _) inside
  | container kind ns pos =>
    cases body
    simp only [Node.evalWith]
    exact later_bind (fun _ => hP.map (hP.congruence.set _ _) _) inside
  | arrow relation source target ns pos =>
    cases body
    simp only [Node.evalWith]
    exact later_bind (fun _ => hP.congruence.registerArrow _ _ _ _) inside
  | map entries =>
    cases body
    simp only [Node.evalWith]
    rw [state_map]
    exact inside
  | _ => cases body

/-- The entries of a combined map are run in two passes, the blocks in the second one. What an entry does
lasts through the rest of its pass and through the one behind. -/
theorem later_of_blocksLast {items : List Node}
    (turn : InTurn (Finishes src hooks) (Node.blocksLast items) s.inside m t) :
    (m.evalWith src hooks t).2.world.Later ((Node.combinedMap items).evalWith src hooks s).2.world := by
  simp only [Node.evalWith]
  rw [state_map]
  unfold inChild
  rw [world_within]
  rcases selected_cases turn with turn | ⟨u, ran, turn⟩
  · exact later_bind (fun _ => hooked.evalSelected _ items) (later_evalSelected hooked turn)
  · refine .trans (later_evalSelected hooked turn) ?_
    have same := state_bind_of_ok (f := fun _ => evalSelected src hooks Node.isBlock items) ran
    exact same ▸ .refl _

/-- **What a node runs lasts until the node has been evaluated.** Whatever the node does after that part
goes on from the world the part has left. -/
theorem Runs.lasts {here : Bool} {task : Task} (runs : Runs src hooks n s here task t) :
    (task.run src hooks t).2.world.Later (n.evalWith src hooks s).2.world := by
  have hP := pervasive_proceeds []
  cases runs with
  | operand first => exact later_of_operand? hooked first
  | right gives needed =>
    simp only [Node.evalWith]
    rw [state_operand_of_gives gives, if_neg needed]
    exact later_operand fun r => hP.congruence.ofExcept _
  | @choice condition yes no _ _ c taken ran chosen =>
    simp only [Node.evalWith]
    rw [state_bind_of_ok ran, chosen]
    cases taken with
    | true => exact later_lastOperand
    | false => exact later_lastOperand
  | item items turn => exact later_of_items? hooked items turn
  | pair turn =>
    simp only [Node.evalWith]
    rw [state_map]
    exact later_evalPairs hooked turn
  | body body turn =>
    unfold Task.run
    rw [state_locating]
    exact later_of_body? hooked body turn
  | entry turn => exact later_of_blocksLast hooked turn
  | condition turn =>
    simp only [Node.evalWith]
    exact later_condition hooked turn
  | branch turn taken later =>
    simp only [Node.evalWith, Task.run]
    rw [state_locating]
    exact later_branch hooked turn taken later
  | step order turn found =>
    simp only [Node.evalWith]
    unfold runPipeline
    rw [Inherited.names_stepsOf, order]
    exact later_runSteps hooked turn found
  | @program cmd args dir pos s allowed =>
    simp only [Node.evalWith]
    rw [if_pos allowed]
    refine later_operand fun c => hP.bind (hP.congruence.ofExcept _) fun program => ?_
    refine hP.bind (hooked.evalOption args) fun a => hP.bind (hooked.evalOption dir) fun d => ?_
    exact hP.bind (hP.congruence.ofExcept _) fun directory => hP.commanded _ _
  | @arguments cmd m dir pos s t c program allowed gives isProgram =>
    simp only [Node.evalWith]
    rw [if_pos allowed, state_operand_of_gives gives, isProgram]
    refine later_bind (x := evalOption src hooks (some m)) (fun a => ?_) later_lastOperand
    refine hP.bind (hooked.evalOption dir) fun d => ?_
    exact hP.bind (hP.congruence.ofExcept _) fun directory => hP.commanded _ _
  | @directory cmd m args dir pos u _ c a program allowed gives isProgram arguments =>
    simp only [Node.evalWith]
    rw [if_pos allowed, state_operand_of_gives gives, isProgram]
    -- What is left to do with the directory once the arguments are known.
    let last := fun (a d : Value) => ofExcept (directoryOf src d) >>= fun directory =>
      runCommand src ⟨program, argsOf a, directory⟩
    have same := state_bind_of_ok (f := fun a => evalOption src hooks (some m) >>= last a) arguments
    have lasts : (m.evalWith src hooks t).2.world.Later
        ((evalOption src hooks (some m) >>= last a) t).2.world :=
      later_bind (fun d => hP.bind (hP.congruence.ofExcept _) fun _ => hP.commanded _ _)
        later_lastOperand
    rw [← same] at lasts
    exact lasts
  | hole turn read =>
    simp only [Node.evalWith, literalValue]
    rw [state_map]
    exact later_joinPieces hooked turn read
  | inclusion gives =>
    simp only [Node.evalWith]
    rw [state_operand_of_gives gives]
    exact .refl _

end

/-! ## 3. Parts of activities -/

/-- A document is run from the state of the inclusion or one in which it has been asked for. -/
theorem Enters.leads {src inner : Source} {target : String} {nodes : List Node}
    (h : Enters src target s inner nodes t) : Leads s t := by
  intro since
  cases h with
  | again => exact ⟨since, .refl⟩
  | @anew place text nodes found closed missing fetched read =>
    have asking : Step [] ⟨s.world, since⟩ (Moment.noting ⟨s.world, since⟩ place.event) := by
      rw [← Source.ofKey_of_find found]
      exact .ask List.not_mem_nil missing
    exact ⟨_, .single asking⟩

/-- Running a document proceeds step by step, the document being open. -/
theorem proceeds_runWithin (left : Nat) (src : Source) (nodes : List Node) :
    Proceeds src.opened (Source.runWithin left src nodes) :=
  (pervasive_proceeds src.opened).evalStatements_atDepth (proceeds_includeWithin left src) _ nodes

/-- Running a document proceeds step by step, with all the rounds that the world allows. -/
theorem proceeds_run (src : Source) (nodes : List Node) : Proceeds src.opened (src.run nodes) :=
  fun s => proceeds_runWithin (s.world.reach + 1) src nodes s

/-- So does the evaluation of a single expression. -/
theorem proceeds_evalValue (src : Source) (n : Node) : Proceeds src.opened (n.evalValue src) := by
  have hP := pervasive_proceeds src.opened
  refine hP.bind (hP.bind hP.world fun w => ?_) fun v => hP.congruence.ofExcept _
  exact hP.evalWith_atDepth (proceeds_includeWithin (w.reach + 1) src) _ n

/-- A detour through another scope leaves the world that was reached in it. -/
theorem world_of_within {other : Scope → Scope} {x : Eval Unit} {r : Except Fault (Table Value)}
    (ran : within other x s = (r, t)) : t.world = (x { s with scope := other s.scope }).2.world := by
  rw [← world_within, ran]

/-- What has been done when a document has been run lasts until it has been included: its own entry was
not in the cache. -/
theorem later_includeWith {left : Nat} {src inner : Source} {target : String} {nodes : List Node}
    (h : Enters src target s inner nodes t) :
    (Source.runWithin left inner nodes t).2.world.Later
      (includeWith (Source.runWithin left) src target s).2.world := by
  have noted (w : World) (e : Event) : w.Later (w.noting e) :=
    ⟨List.prefix_append _ _, id⟩
  cases h with
  | @again place nodes found closed cached =>
    rcases ran : inChild (Source.runWithin left (src.nested place.key place.key) nodes) s with
      ⟨fault | vars, s'⟩
    · rw [includeWith_eq (.againFailed found closed cached ran)]
      exact world_of_within ran ▸ .refl _
    · rw [includeWith_eq (.again found closed cached ran)]
      exact world_of_within ran ▸ noted s'.world _
  | @anew place text nodes found closed missing fetched read =>
    rcases ran : inFresh (Source.runWithin left (src.nested place.key place.key) nodes)
      (s.noting place.event) with ⟨fault | vars, s'⟩
    · rw [includeWith_eq (.anewFailed found closed missing fetched read ran)]
      exact world_of_within ran ▸ .refl _
    · rw [includeWith_eq (.anew found closed missing fetched read ran)]
      obtain ⟨-, -, still, -⟩ := path_of_anew
        (proceeds_runWithin left (src.nested place.key place.key) nodes) []
        (Source.ofKey_of_find found) closed missing fetched
      rw [ran] at still
      refine world_of_within ran ▸ ⟨List.prefix_append _ _, fun {key nodes'} cached => ?_⟩
      -- The document was not in the cache before and did not put itself there, so whatever is cached is
      -- cached under another key.
      have other : key ≠ place.key := by
        rintro rfl
        rw [cached] at still
        cases still
      exact (Table.find?_insert _ _ _ _).trans ((if_neg other).trans cached)

end Eval

namespace Activity

open Eval

variable {a b : Activity} {src : Source} {s : State}

/-- How a document is included, if there is room for one more. -/
theorem inclusion_of_room {left : Nat} (room : a.documents = left + 1) (target : String) :
    a.hooks.inclusion target = includeWith (Source.runWithin left) a.src target := by
  unfold hooks
  rw [Hooks.inclusion_atDepth, room, Source.includeWithin_succ]

/-- The hooks of an activity proceed. -/
theorem hooksProceed (a : Activity) : HooksProceed a.hooks where
  splice m := Proceeds.anywhere <|
    (pervasive_proceeds a.src.opened).splice_atDepth (proceeds_includeWithin a.documents a.src) _ m
  inclusion target := by
    unfold hooks
    rw [Hooks.inclusion_atDepth]
    exact (proceeds_includeWithin a.documents a.src target).anywhere

/-- **A part begins after steps of the activity.** For a statement of an included document, these are what
led to the inclusion, the entry into the document and the statements before it. -/
theorem Part.leads {here statement : Bool} (part : Part a here statement b) : Leads a.state b.state := by
  cases part with
  | operand runs | statement runs | spliced room runs => exact runs.leads a.hooksProceed
  | @included left target inner nodes m t u v room runs enters turn =>
    have hooked := hooksProceed ⟨inner, left, longestTextAll nodes, m, v⟩
    refine ((runs.leads a.hooksProceed).trans enters.leads).trans ?_
    exact turn.keeps (I := Leads u) (fun _ _ _ finishes h => h.trans (finishes.leads hooked)) (.refl u)

/-- An activity leads from its state to the one it ends in. -/
theorem leads_ending (a : Activity) : Leads a.state a.ending.2 :=
  a.hooksProceed.evalWith a.node a.state

/-- **What a part leaves lasts** until the activity has ended. A statement of an included document lasts
until the document has ended, that until it is bound, and that until the node is done. -/
theorem Part.lasts {here statement : Bool} (part : Part a here statement b) :
    b.ending.2.world.Later a.ending.2.world := by
  have hooked := a.hooksProceed
  cases part with
  | operand runs => exact runs.lasts hooked
  | statement runs =>
    have h := runs.lasts hooked
    unfold Task.run at h
    rwa [state_locating] at h
  | @spliced depth m t room runs =>
    refine .trans ?_ (runs.lasts hooked)
    unfold Task.run hooks
    rw [room]
    exact later_lastOperand
  | @included left target inner nodes m t u v room runs enters turn =>
    have hooked' := hooksProceed ⟨inner, left, longestTextAll nodes, m, v⟩
    have h := runs.lasts hooked
    dsimp only [Task.run] at h
    rw [inclusion_of_room room] at h
    exact ((later_evalStatements hooked' turn).trans (later_includeWith enters)).trans h

/-- From the beginning of an activity steps lead to the beginning of everything in it, at any depth. -/
theorem Within.leads (h : Within a b) : Leads a.state b.state := by
  induction h with
  | refl => exact .refl _
  | tail _ part ih =>
    obtain ⟨_, _, part⟩ := part
    exact ih.trans part.leads

/-- And what is done at any depth in it lasts until it ends. -/
theorem Within.lasts (h : Within a b) : b.ending.2.world.Later a.ending.2.world := by
  induction h with
  | refl => exact .refl _
  | tail _ part ih =>
    obtain ⟨_, _, part⟩ := part
    exact part.lasts.trans ih

/-- A statement of a document begins after steps of the run, and what it leaves lasts until the end. -/
theorem OfDocument.leads {nodes : List Node} (h : OfDocument src nodes s a) :
    Leads s a.state ∧ a.ending.2.world.Later (src.run nodes s).2.world := by
  cases h with
  | @intro m t turn =>
    have hooked := hooksProceed ⟨src, s.world.reach + 1, longestTextAll nodes, m, t⟩
    refine ⟨?_, later_evalStatements hooked turn⟩
    exact turn.keeps (I := Leads s) (fun _ _ _ finishes h => h.trans (finishes.leads hooked)) (.refl s)

end Activity

end BlockConfig
