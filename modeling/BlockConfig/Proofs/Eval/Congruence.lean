import BlockConfig.Eval.Evaluate
import BlockConfig.Proofs.Grammar.Tree
import Mathlib.Data.List.Forall2

/-!
What evaluation is put together from.

Evaluation follows the tree, and what it does at a node it does with a dozen operations: going on with
a result, reading and writing the scope, reading the host, failing, running a part in another scope.
A relation between evaluations that all of these keep (`Congruence`) therefore holds between the
evaluations of a tree in two settings, as soon as it holds where evaluation leaves the tree: at the
expressions found in strings, at calls, at inclusions and at commands (`AgreesHere`). The same goes for
names: a scope's own table is read in many places, the tables around it only at a name.

`Congruence.evalWith` is that induction, made once for all such relations. The settings may differ in
what the engine calls, runs and includes, but not in what is read on the way: the name and the place
of the document, and the settings of the engine (`Source.Alike`). A property of single evaluations
that everything keeps is such a relation too, one that looks at its first side only.
-/

set_option autoImplicit false

namespace BlockConfig

/-- An expression that is found in a string of a node. -/
def Node.Splices (n m : Node) : Prop :=
  ∃ s quote tag inner file, n = .literal (.str s quote tag) ∧
    Piece.hole inner ∈ Piece.split s.toList ∧ Hole.read inner file = .expression m

/-- Documents that evaluation reads in the same way. -/
structure Source.Alike (src src' : Source) : Prop where
  file : src'.file = src.file
  base : src'.base = src.base
  settings : src'.engine.settings = src.engine.settings

namespace Eval

/-- One evaluation after another, from a state. -/
theorem bind_apply {α β : Type} (x : Eval α) (f : α → Eval β) (s : State) :
    (x >>= f) s = match x s with
      | (.ok a, s') => f a s'
      | (.error fault, s') => (.error fault, s') := by
  show (match x s with | (r, s') => ExceptT.bindCont f r s') = _
  cases x s with
  | mk r s' => cases r <;> rfl

section

variable {α : Type} {x y : Eval α}

/-- Asking whether an evaluation fails changes its result only. -/
theorem state_attempt (x : Eval α) (s : State) : (attempt x s).2 = (x s).2 := by
  unfold attempt
  rcases x s with ⟨(e | message) | a, s'⟩ <;> rfl

/-- Catching a failure depends on the result alone, so evaluations with equal results are caught alike. -/
theorem attempt_congr {s t : State} (h : (x s).1 = (y t).1) :
    (attempt x s).1 = (attempt y t).1 := by
  unfold attempt
  generalize x s = ending at h
  generalize y t = ending' at h
  obtain ⟨r, s'⟩ := ending
  obtain ⟨_, t'⟩ := ending'
  cases h
  rcases r with (e | message) | a <;> rfl

/-- Locating an error changes the result only. -/
theorem state_locating (file : String) (pos : Option Position) (x : Eval α) (s : State) :
    (locating file pos x s).2 = (x s).2 := by
  unfold locating
  rcases x s with ⟨(e | message) | a, s'⟩ <;> cases pos <;> rfl

/-- So does locating it. -/
theorem locating_congr (file : String) (pos : Option Position) {s t : State}
    (h : (x s).1 = (y t).1) : (locating file pos x s).1 = (locating file pos y t).1 := by
  unfold locating
  generalize x s = ending at h
  generalize y t = ending' at h
  obtain ⟨r, s'⟩ := ending
  obtain ⟨_, t'⟩ := ending'
  cases h
  rcases r with (e | message) | a <;> cases pos <;> rfl

/-- A call changes the memory of the functions only. -/
theorem state_call (f : Callable) (values : List Value) (s : State) :
    (call f values s).2 = { s with world := { s.world with memory := (f values s.world.memory).2 } } := by
  unfold call
  rcases f values s.world.memory with ⟨v | message | message, memory⟩ <;> rfl

/-- The current scope comes back. -/
theorem scope_within (other : Scope → Scope) (act : Eval Unit) (s : State) :
    (within other act s).2.scope = s.scope := by
  unfold within
  rcases act { s with scope := other s.scope } with ⟨fault | _, s'⟩ <;> rfl

/-- The world that is left is that of the evaluation. -/
theorem world_within (other : Scope → Scope) (act : Eval Unit) (s : State) :
    (within other act s).2.world = (act { s with scope := other s.scope }).2.world := by
  unfold within
  rcases act { s with scope := other s.scope } with ⟨fault | _, s'⟩ <;> rfl

end

/-- A relation between evaluations that is kept by everything evaluation is put together from. -/
structure Congruence (R : {α : Type} → Eval α → Eval α → Prop) : Prop where
  pure {α : Type} (a : α) : R (pure a) (pure a)
  bind {α β : Type} {x y : Eval α} {f g : α → Eval β} (h : R x y) (hf : ∀ a, R (f a) (g a)) :
    R (x >>= f) (y >>= g)
  fail {α : Type} (e : EvalError) : R (fail e : Eval α) (fail e)
  /-- What is done with a scope of which only the own table is read. -/
  own {α : Type} {f g : Scope → Eval α} (h : ∀ a b : Scope, a.own = b.own → R (f a) (g b)) :
    R (scope >>= f) (scope >>= g)
  /-- What is done with the surroundings. -/
  host {α : Type} {f g : Host → Eval α} (h : ∀ host, R (f host) (g host)) :
    R (world >>= fun w => f w.host) (world >>= fun w => g w.host)
  set (name : String) (v : Value) :
    R (modifyScope fun s => s.set name v) (modifyScope fun s => s.set name v)
  attempt {α : Type} {x y : Eval α} (h : R x y) : R (attempt x) (attempt y)
  locating {α : Type} (file : String) (pos : Option Position) {x y : Eval α} (h : R x y) :
    R (locating file pos x) (locating file pos y)
  inChild {x y : Eval Unit} (h : R x y) : R (inChild x) (inChild y)
  /-- What a pipeline does with its scope. -/
  aside {α : Type} {x y : Eval α} (h : R x y) :
    R (fun s => match x { s with scope := s.scope.child } with
        | (r, s') => (r, { s' with scope := s.scope }))
      (fun s => match y { s with scope := s.scope.child } with
        | (r, s') => (r, { s' with scope := s.scope }))

/-! ## 1. Steps of pipelines -/

/-- Steps of a pipeline with the same names and related evaluations. -/
def Steps (R : Eval Value → Eval Value → Prop) (steps steps' : List (String × Eval Value)) : Prop :=
  List.Forall₂ (fun a b => a.1 = b.1 ∧ R a.2 b.2) steps steps'

section

variable {R : Eval Value → Eval Value → Prop} {steps steps' : List (String × Eval Value)}

/-- Steps that are related have the same names in the same order. -/
theorem Steps.names (h : Steps R steps steps') : steps.map Prod.fst = steps'.map Prod.fst := by
  induction h with
  | nil => rfl
  | cons h _ ih => rw [List.map_cons, List.map_cons, h.1, ih]

/-- The first step of a name is found on both sides or on none, and the two are related. -/
theorem Steps.lookup (h : Steps R steps steps') (name : String) :
    (steps.lookup name = none ∧ steps'.lookup name = none) ∨
      ∃ x y, steps.lookup name = some x ∧ steps'.lookup name = some y ∧ R x y := by
  induction h with
  | nil => exact .inl ⟨rfl, rfl⟩
  | @cons a b as bs h _ ih =>
    obtain ⟨n, x⟩ := a
    obtain ⟨n', y⟩ := b
    obtain ⟨rfl, hxy⟩ : n = n' ∧ R x y := h
    rw [List.lookup_cons, List.lookup_cons]
    by_cases hn : name == n
    · rw [hn]
      exact .inr ⟨x, y, rfl, rfl, hxy⟩
    · rw [Bool.not_eq_true] at hn
      rw [hn]
      exact ih

end

/-! ## 2. Parts that are the same on both sides -/

section Parts

variable {R : {α : Type} → Eval α → Eval α → Prop} (hR : Congruence R)

include hR

/-- A result that was computed outside of evaluation is related to itself, as a value that is given or as a
failure. -/
theorem Congruence.ofExcept {α : Type} (r : Except EvalError α) : R (ofExcept r) (ofExcept r) := by
  cases r with
  | ok a => exact hR.pure a
  | error e => exact hR.fail e

/-- What is done with a result when that is not evaluation any more. -/
theorem Congruence.map {α β : Type} {x y : Eval α} (h : R x y) (f : α → β) :
    R (x >>= fun a => Pure.pure (f a)) (y >>= fun a => Pure.pure (f a)) :=
  hR.bind h fun a => hR.pure (f a)

/-- What the environment says of a name is read from the world, under settings that are the same on both
sides. -/
theorem Congruence.envValue? {src src' : Source} (alike : src.Alike src') (name : String) :
    R (envValue? src name) (envValue? src' name) := by
  unfold Eval.envValue?
  rw [alike.settings]
  exact hR.host (f := fun h => Pure.pure (src.engine.settings.envValue? h name))
    fun h => hR.pure _

/-- Binding a name is the same on both sides, as it depends on nothing of the surroundings. The lemmas below
say this of the other ways of binding. -/
theorem Congruence.bindValue (name : String) (source : Node) (v : Value) :
    R (Eval.bind name source v) (Eval.bind name source v) := by
  unfold Eval.bind
  refine hR.bind (hR.ofExcept _) fun v => ?_
  exact hR.map (hR.set _ _) _

theorem Congruence.bindElement (name : String) (source : Node) (r : Except EvalError Value) :
    R (bindElement name source r) (bindElement name source r) := by
  cases r with
  | ok v => exact hR.bindValue name source v
  | error e => exact hR.pure []

theorem Congruence.bindOutcome (name : String) (source : Node) (r : Except EvalError Value) :
    R (bindOutcome name source r) (bindOutcome name source r) := by
  unfold Eval.bindOutcome
  split
  · exact hR.bindElement name source r
  · exact hR.bind (hR.ofExcept r) fun v => hR.bindValue name source v

theorem Congruence.bindElements (source : Node) (r : Except EvalError Value) (index : Nat)
    (targets : List Target) :
    R (bindElements source r index targets) (bindElements source r index targets) := by
  induction targets generalizing index with
  | nil => exact hR.pure []
  | cons target targets ih =>
    unfold Eval.bindElements
    refine hR.bind (hR.bindElement target.name _ _) fun vars => ?_
    exact hR.map (ih (index + 1)) _

theorem Congruence.registerBlock (kind label : String) (props : Table Value) :
    R (registerBlock kind label props) (registerBlock kind label props) := by
  unfold Eval.registerBlock
  refine hR.own fun a b h => ?_
  unfold Scope.findOwn?
  rw [h]
  -- The block is registered by one change of the scope that sets two names.
  exact hR.map (hR.bind (hR.set kind _) fun _ => hR.set label _) _

theorem Congruence.registerArrow (relation source target : String) (props : Table Value) :
    R (registerArrow relation source target props) (registerArrow relation source target props) := by
  unfold Eval.registerArrow
  refine hR.own fun a b h => ?_
  unfold Scope.findOwn?
  rw [h]
  exact hR.map (hR.set _ _) _

/-! ## 3. Strings and pipelines -/

/-- A hole of a string is related if the expression in it is. Whatever else its text may be read as, the two
sides share what is needed for it. -/
theorem Congruence.fillHole {src src' : Source} {hooks hooks' : Hooks} (alike : src.Alike src')
    (inner : List Char)
    (spliced : ∀ m, Hole.read inner src.file = .expression m →
      R (hooks.splice m) (hooks'.splice m)) :
    R (fillHole src hooks inner) (fillHole src' hooks' inner) := by
  unfold Eval.fillHole
  rw [alike.file]
  cases hole : Hole.read inner src.file with
  | empty => exact hR.fail _
  | reference name default => exact hR.map (hR.envValue? alike name) _
  | expression m => exact hR.map (spliced m hole) _
  | unreadable reason => exact hR.fail _

/-- The pieces of a string, one after the other, with induction on how many there are. -/
theorem Congruence.joinPieces {src src' : Source} {hooks hooks' : Hooks} (alike : src.Alike src')
    (whole : String) (pieces : List Piece)
    (spliced : ∀ inner, .hole inner ∈ pieces → ∀ m, Hole.read inner src.file = .expression m →
      R (hooks.splice m) (hooks'.splice m)) :
    R (joinPieces src hooks whole pieces) (joinPieces src' hooks' whole pieces) := by
  induction pieces with
  | nil => exact hR.pure ""
  | cons piece pieces ih =>
    have hrest := ih fun inner hmem => spliced inner (List.mem_cons_of_mem piece hmem)
    cases piece with
    | text cs => exact hR.map hrest _
    | hole inner =>
      unfold Eval.joinPieces
      refine hR.bind (hR.fillHole alike inner (spliced inner List.mem_cons_self)) fun here => ?_
      exact hR.map hrest _
    | unclosed => exact hR.fail _

/-- A literal is a text with expressions in it or evaluates to itself. -/
theorem Congruence.literalValue {src src' : Source} {hooks hooks' : Hooks} (alike : src.Alike src')
    (value : Literal)
    (spliced : ∀ m, (Node.literal value).Splices m → R (hooks.splice m) (hooks'.splice m)) :
    R (literalValue src hooks value) (literalValue src' hooks' value) := by
  cases value with
  | str s quote tag =>
    refine hR.map (hR.joinPieces alike s _ fun inner hmem m hread => spliced m ?_) _
    exact ⟨s, quote, tag, inner, src.file, rfl, hmem, hread⟩
  | int i => exact hR.pure _
  | float x => exact hR.pure _
  | bool b => exact hR.pure _
  | null => exact hR.pure _

/-- The steps of a pipeline in a given order. A name that is no step fails on both sides. -/
theorem Congruence.runSteps {steps steps' : List (String × Eval Value)} (h : Steps R steps steps')
    (output : Value) (names : List String) :
    R (runSteps steps output names) (runSteps steps' output names) := by
  induction names generalizing output with
  | nil => exact hR.pure output
  | cons name names ih =>
    unfold Eval.runSteps
    rcases h.lookup name with ⟨h1, h2⟩ | ⟨x, y, h1, h2, hxy⟩
    · rw [h1, h2]
      exact ih output
    · rw [h1, h2]
      refine hR.bind hxy fun v => hR.bind (hR.ofExcept _) fun v => ?_
      exact hR.bind (hR.set _ _) fun _ => ih v

/-- A pipeline. Its order is computed from names and arrows, and those are the same. -/
theorem Congruence.runPipeline {steps steps' : List (String × Eval Value)}
    (h : Steps R steps steps') (arrows : List (String × String)) :
    R (runPipeline steps arrows) (runPipeline steps' arrows) := by
  unfold Eval.runPipeline
  rw [h.names]
  cases Pipeline.order (steps'.map Prod.fst) arrows with
  | error fault => exact hR.fail _
  | ok names => exact hR.aside (hR.runSteps h .null names)

end Parts

/-! ## 4. Trees -/

section Trees

variable (R : {α : Type} → Eval α → Eval α → Prop) (src src' : Source) (hooks hooks' : Hooks)

/-- The evaluations in two settings are related where they leave the tree at a node. -/
structure AgreesHere (n : Node) : Prop where
  named : ∀ name, n = .ident name →
    R (scope >>= fun s => Pure.pure (s.lookup name)) (scope >>= fun s => Pure.pure (s.lookup name))
  spliced : ∀ m, n.Splices m → R (hooks.splice m) (hooks'.splice m)
  called : ∀ name args pos, n = .call name args pos → ∀ values,
    R (ofExcept (function src name) >>= fun f => call f values)
      (ofExcept (function src' name) >>= fun f => call f values)
  included : ∀ target pos, n = .inclusion target pos → ∀ s,
    R (hooks.inclusion s) (hooks'.inclusion s)
  commanded : ∀ cmd args dir pos, n = .exec cmd args dir pos → ∀ command,
    R (runCommand src command) (runCommand src' command)

/-- The evaluations of a tree in two settings are related. -/
def Related (n : Node) : Prop :=
  R (n.evalWith src hooks) (n.evalWith src' hooks')

variable {R src src' hooks hooks'} (hR : Congruence R) {n : Node} {ns : List Node}

include hR

/-- An operand, a call taken apart, and what is done with its value. -/
theorem Congruence.operand {β : Type} (h : Related R src src' hooks hooks' n) {f g : Value → Eval β}
    (hf : ∀ v, R (f v) (g v)) :
    R (n.evalWith src hooks >>= fun v => Eval.ofExcept (v.unwrapCall n) >>= f)
      (n.evalWith src' hooks' >>= fun v => Eval.ofExcept (v.unwrapCall n) >>= g) :=
  hR.bind h fun _ => hR.bind (hR.ofExcept _) hf

/-- An operand that is the result. -/
theorem Congruence.lastOperand (h : Related R src src' hooks hooks' n) :
    R (n.evalWith src hooks >>= fun v => Eval.ofExcept (v.unwrapCall n))
      (n.evalWith src' hooks' >>= fun v => Eval.ofExcept (v.unwrapCall n)) :=
  hR.bind h fun _ => hR.ofExcept _

/-- Statements are related if each of them is; where their failures are located is the same. -/
theorem Congruence.evalStatements (alike : src.Alike src')
    (h : ∀ m ∈ ns, Related R src src' hooks hooks' m) :
    R (evalStatements src hooks ns) (evalStatements src' hooks' ns) := by
  induction ns with
  | nil => exact hR.pure ()
  | cons n ns ih =>
    unfold BlockConfig.evalStatements
    rw [alike.file]
    refine hR.bind (hR.locating src.file n.pos? (h n List.mem_cons_self)) fun _ => ?_
    exact ih fun m hm => h m (List.mem_cons_of_mem n hm)

/-- Statements of which only some are evaluated. -/
theorem Congruence.evalSelected (selected : Node → Bool)
    (h : ∀ m ∈ ns, Related R src src' hooks hooks' m) :
    R (evalSelected src hooks selected ns) (evalSelected src' hooks' selected ns) := by
  induction ns with
  | nil => exact hR.pure ()
  | cons n ns ih =>
    have hrest := ih fun m hm => h m (List.mem_cons_of_mem n hm)
    unfold BlockConfig.evalSelected
    cases selected n with
    | true => exact hR.bind (h n List.mem_cons_self) fun _ => hrest
    | false => exact hrest

/-- Items and arguments are related if each of them is, in all the places where they are used as values. -/
theorem Congruence.evalValues (h : ∀ m ∈ ns, Related R src src' hooks hooks' m) :
    R (evalValues src hooks ns) (evalValues src' hooks' ns) := by
  induction ns with
  | nil => exact hR.pure []
  | cons n ns ih =>
    unfold BlockConfig.evalValues
    refine hR.operand (h n List.mem_cons_self) fun v => ?_
    exact hR.map (ih fun m hm => h m (List.mem_cons_of_mem n hm)) _

/-- A part that may be missing is related, or undefined on both sides. -/
theorem Congruence.evalOption {o : Option Node}
    (h : ∀ m ∈ o, Related R src src' hooks hooks' m) :
    R (evalOption src hooks o) (evalOption src' hooks' o) := by
  cases o with
  | none => exact hR.pure Value.null
  | some n => exact hR.lastOperand (h n rfl)

/-- Several assignments at once. An extraction that fails leaves its name as it is, on both sides. -/
theorem Congruence.evalPairs {pairs : List (Target × Node)}
    (h : ∀ p ∈ pairs, Related R src src' hooks hooks' p.2) :
    R (evalPairs src hooks pairs) (evalPairs src' hooks' pairs) := by
  induction pairs with
  | nil => exact hR.pure []
  | cons p ps ih =>
    obtain ⟨target, n⟩ := p
    unfold BlockConfig.evalPairs
    refine hR.bind (hR.attempt (h (target, n) List.mem_cons_self)) fun r => ?_
    refine hR.bind (hR.bindOutcome target.name n r) fun vars => ?_
    exact hR.map (ih fun q hq => h q (List.mem_cons_of_mem _ hq)) _

/-- A chain of conditions. Whatever value a condition gives, the rest of the chain is related. -/
theorem Congruence.evalBranches {bs : List (Branch Node)} (alike : src.Alike src')
    (hc : ∀ b ∈ bs, ∀ m ∈ b.condition, Related R src src' hooks hooks' m)
    (hb : ∀ b ∈ bs, ∀ m ∈ b.body, Related R src src' hooks hooks' m) :
    R (evalBranches src hooks bs) (evalBranches src' hooks' bs) := by
  induction bs with
  | nil => exact hR.pure Value.undefined
  | cons b bs ih =>
    obtain ⟨condition, body, pos⟩ := b
    have hrest := ih (fun b h => hc b (List.mem_cons_of_mem _ h))
      fun b h => hb b (List.mem_cons_of_mem _ h)
    have hbody := hR.evalStatements alike (hb ⟨condition, body, pos⟩ List.mem_cons_self)
    have hlink : ∀ taken : Bool,
        R (if taken = true then do BlockConfig.evalStatements src hooks body; return .undefined
            else BlockConfig.evalBranches src hooks bs)
          (if taken = true then do BlockConfig.evalStatements src' hooks' body; return .undefined
            else BlockConfig.evalBranches src' hooks' bs) := by
      intro taken
      cases taken with
      | true => exact hR.map hbody _
      | false => exact hrest
    unfold BlockConfig.evalBranches
    cases condition with
    | none => exact hlink true
    | some n =>
      have hn := hc ⟨some n, body, pos⟩ List.mem_cons_self n rfl
      exact hR.operand hn fun v => hR.bind (hR.ofExcept _) hlink

omit hR in
/-- The steps of related bodies are related under the same names. -/
theorem steps_stepsOf (h : ∀ m ∈ ns, ∀ target value style, m = .assign target value style →
    Related R src src' hooks hooks' value) :
    Steps R (stepsOf src hooks ns) (stepsOf src' hooks' ns) := by
  induction ns with
  | nil => exact .nil
  | cons n ns ih =>
    have hrest := ih fun m hm => h m (List.mem_cons_of_mem n hm)
    cases n with
    | assign target value style =>
      exact .cons ⟨rfl, h _ List.mem_cons_self target value style rfl⟩ hrest
    | _ => exact hrest

/-- The step of the induction. A pipeline runs the values of its assignments and not the assignments,
which is why two levels below the node are spoken of. -/
theorem Congruence.related_of_children (alike : src.Alike src') (n : Node)
    (here : AgreesHere R src src' hooks hooks' n)
    (ih : ∀ m ∈ n.children, Related R src src' hooks hooks' m)
    (ih' : ∀ m ∈ n.children, ∀ k ∈ m.children, Related R src src' hooks hooks' k) :
    Related R src src' hooks hooks' n := by
  unfold Related
  cases n with
  | assign target value style =>
    simp only [Node.evalWith]
    refine hR.bind (hR.attempt (ih value (by simp [Node.children]))) fun r => ?_
    exact hR.map (hR.bindOutcome target.name value r) _
  | assignEach pairs =>
    simp only [Node.evalWith]
    exact hR.map (hR.evalPairs fun p hp => ih p.2 (List.mem_map_of_mem hp)) _
  | destructure targets source =>
    simp only [Node.evalWith]
    refine hR.bind (hR.attempt (ih source (by simp [Node.children]))) fun r => ?_
    exact hR.map (hR.bindElements source r 0 targets) _
  | block kind label body pos =>
    simp only [Node.evalWith]
    refine hR.bind (hR.inChild (hR.evalStatements alike ih)) fun props => ?_
    exact hR.registerBlock kind _ props
  | container kind body pos =>
    simp only [Node.evalWith]
    refine hR.bind (hR.inChild (hR.evalStatements alike ih)) fun vars => ?_
    exact hR.map (hR.set _ _) _
  | arrow relation source target body pos =>
    simp only [Node.evalWith]
    refine hR.bind (hR.inChild (hR.evalStatements alike ih)) fun props => ?_
    exact hR.registerArrow _ source target props
  | map entries =>
    simp only [Node.evalWith]
    exact hR.map (hR.inChild (hR.evalStatements alike ih)) _
  | combinedMap items =>
    simp only [Node.evalWith]
    refine hR.map (hR.inChild ?_) _
    exact hR.bind (hR.evalSelected _ ih) fun _ => hR.evalSelected _ ih
  | list items =>
    simp only [Node.evalWith]
    exact hR.map (hR.evalValues ih) _
  | literal value =>
    simp only [Node.evalWith]
    exact hR.literalValue alike value here.spliced
  | ident name =>
    simp only [Node.evalWith]
    split
    · exact hR.pure _
    · exact here.named name rfl
  | member left name =>
    simp only [Node.evalWith]
    refine hR.operand (ih left (by simp [Node.children])) fun target => ?_
    refine hR.host (f := fun host => scope >>= fun s => Eval.ofExcept
      (target.member name s fun n => src.engine.settings.envValue? host n))
      (g := fun host => scope >>= fun s => Eval.ofExcept
        (target.member name s fun n => src'.engine.settings.envValue? host n)) fun host => ?_
    refine hR.own fun a b h => ?_
    rw [alike.settings, target.member_congr name h]
    exact hR.ofExcept _
  | binary op left right =>
    simp only [Node.evalWith]
    refine hR.operand (ih left (by simp [Node.children])) fun l => ?_
    split
    · exact hR.pure l
    · exact hR.operand (ih right (by simp [Node.children])) fun r => hR.ofExcept _
  | unary op operand =>
    simp only [Node.evalWith]
    exact hR.operand (ih operand (by simp [Node.children])) fun v => hR.ofExcept _
  | ternary condition yes no =>
    simp only [Node.evalWith]
    refine hR.bind (ih condition (by simp [Node.children])) fun c => ?_
    refine hR.bind (hR.ofExcept _) fun taken => ?_
    cases taken with
    | true => exact hR.lastOperand (ih yes (by simp [Node.children]))
    | false => exact hR.lastOperand (ih no (by simp [Node.children]))
  | group inner =>
    simp only [Node.evalWith]
    exact ih inner (by simp [Node.children])
  | call name args pos =>
    simp only [Node.evalWith]
    exact hR.bind (hR.evalValues ih) fun values => here.called name args pos rfl values
  | envRef name default =>
    simp only [Node.evalWith]
    exact hR.map (hR.envValue? alike name) _
  | inclusion target pos =>
    simp only [Node.evalWith]
    refine hR.operand (ih target (by simp [Node.children])) fun v => ?_
    split
    · exact here.included target pos rfl _
    · exact hR.fail _
  | comment text =>
    simp only [Node.evalWith]
    exact hR.pure Value.undefined
  | control branches =>
    simp only [Node.evalWith]
    have hmem : ∀ b ∈ branches, ∀ m ∈ b.condition.toList ++ b.body,
        m ∈ (Node.control branches).children := fun b hb m hm => List.mem_flatMap.2 ⟨b, hb, hm⟩
    refine hR.evalBranches alike (fun b hb m hm => ?_) fun b hb m hm => ?_
    · exact ih m (hmem b hb m (List.mem_append_left _ (Option.mem_toList.2 hm)))
    · exact ih m (hmem b hb m (List.mem_append_right _ hm))
  | pipeline body pos =>
    -- The one case that needs the second hypothesis: the steps are the values below the statements.
    simp only [Node.evalWith]
    refine hR.runPipeline (steps_stepsOf fun m hm target value style he => ?_) _
    exact ih' m hm value (by simp [he, Node.children])
  | exec cmd args dir pos =>
    simp only [Node.evalWith]
    -- Both engines allow commands or neither does.
    rw [alike.settings]
    split
    · refine hR.operand (ih cmd (by simp [Node.children])) fun c => ?_
      refine hR.bind (hR.ofExcept _) fun program => ?_
      refine hR.bind (hR.evalOption fun m hm => ?_) fun a => ?_
      · exact ih m (by simp [Node.children, Option.mem_def.1 hm])
      · refine hR.bind (hR.evalOption fun m hm => ?_) fun d => ?_
        · exact ih m (by simp [Node.children, Option.mem_def.1 hm])
        · unfold directoryOf
          rw [alike.base]
          refine hR.bind (hR.ofExcept _) fun directory => ?_
          exact here.commanded cmd args dir pos rfl _
    · exact hR.fail _
  | extract source index =>
    simp only [Node.evalWith]
    exact hR.bind (ih source (by simp [Node.children])) fun v => hR.ofExcept _

/-- **A relation that is kept by what evaluation is put together from holds between the evaluations
of a tree,** if it does where they leave the tree. -/
theorem Congruence.evalWith (alike : src.Alike src')
    (h : n.Everywhere (AgreesHere R src src' hooks hooks')) :
    R (n.evalWith src hooks) (n.evalWith src' hooks') := by
  have both : Related R src src' hooks hooks' n ∧
      ∀ m ∈ n.children, Related R src src' hooks hooks' m := by
    induction h with
    | @intro n here _ ih =>
      have below : ∀ m ∈ n.children, Related R src src' hooks hooks' m := fun m hm => (ih m hm).1
      exact ⟨hR.related_of_children alike n here below fun m hm => (ih m hm).2, below⟩
  exact both.1

end Trees

end Eval

end BlockConfig
