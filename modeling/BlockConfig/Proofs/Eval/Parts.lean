import BlockConfig.Proofs.Eval.Congruence
import BlockConfig.Proofs.Eval.PlainErrors

/-!
What an evaluation consists of.

To evaluate a node from a state is to evaluate other nodes from other states, one after another, and to
do something with what they give. `Eval.Runs` lists what a node runs: operands for their values and
statements for their effects, in the scope of the node or in one inside it, and where the tree is left,
expressions found in strings and documents that are included. Which of them have their turn, and from
which states, depends on what the ones before have come to.

What is shown of an evaluation is mostly shown of its parts first. `Eval.Inherited` says of a property
of evaluations from states that a sequence inherits it from its members. Such a property holds of a node
if it holds of what the node runs, and of the few things that the node does itself: setting names,
calling a function, running a command (`Eval.evalWith_of_runs`). Of what runs in a scope inside, another
property may be shown, which matters where the property is about the scope.
-/

set_option autoImplicit false

namespace BlockConfig

/-! ## 1. Where in a tree evaluation goes -/

namespace Node

/-- The node below a node that is evaluated first, for its value. -/
def operand? : Node → Option Node
  | assign _ value _ => some value
  | destructure _ source | extract source _ => some source
  | member left _ | binary _ left _ => some left
  | unary _ operand => some operand
  | ternary condition _ _ => some condition
  | group inner => some inner
  | inclusion target _ => some target
  | _ => none

/-- The nodes below a node that are evaluated one after another for their values. -/
def items? : Node → Option (List Node)
  | list items | call _ items _ => some items
  | _ => none

/-- The nodes below a node that are run as statements in a scope of their own. -/
def body? : Node → Option (List Node)
  | block _ _ body _ | container _ body _ | arrow _ _ _ body _ | map body => some body
  | _ => none

/-- The entries of a map with blocks in the order in which they are evaluated: blocks come last. -/
def blocksLast (items : List Node) : List Node :=
  items.filter (fun n => !n.isBlock) ++ items.filter isBlock

/-- The steps of a pipeline by name. -/
def stepNodes : List Node → List (String × Node)
  | [] => []
  | assign target value _ :: ns => (target.name, value) :: stepNodes ns
  | _ :: ns => stepNodes ns

/-- The names that a node sets itself, once what it is made of has been evaluated. -/
def targets : Node → List String
  | assign target _ _ => [target.name]
  | assignEach pairs => pairs.map fun pair => pair.1.name
  | destructure targets _ => targets.map Target.name
  | block kind label _ _ => [kind, effectiveLabel kind label]
  | container kind _ _ => [kind]
  | arrow relation _ _ _ _ => [relationName relation]
  | _ => []

end Node

/-- The state with an empty scope inside the current one. -/
def State.inside (s : State) : State :=
  { s with scope := s.scope.child }

namespace Eval

/-- Which of several things has its turn, and from which state, if each begins where the one before has
left off. -/
inductive InTurn {α : Type} (step : α → State → State → Prop) : List α → State → α → State → Prop
  | first {x : α} {xs : List α} {s : State} : InTurn step (x :: xs) s x s
  | next {x y : α} {xs : List α} {s t u : State} (passed : step x s t) (later : InTurn step xs t y u) :
    InTurn step (x :: xs) s y u

/-- What has its turn is one of them. -/
theorem InTurn.mem {α : Type} {step : α → State → State → Prop} {xs : List α} {x : α} {s t : State}
    (h : InTurn step xs s x t) : x ∈ xs := by
  induction h with
  | first => exact List.mem_cons_self
  | next _ _ ih => exact List.mem_cons_of_mem _ ih

/-- It has its turn, too, if more are to come. -/
theorem InTurn.append {α : Type} {step : α → State → State → Prop} {xs : List α} {x : α} {s t : State}
    (h : InTurn step xs s x t) (ys : List α) : InTurn step (xs ++ ys) s x t := by
  induction h with
  | first => exact .first
  | next passed _ ih => exact .next passed ih

/-- What every step keeps holds whenever something has its turn. -/
theorem InTurn.keeps {α : Type} {step : α → State → State → Prop} {I : State → Prop}
    (h : ∀ x s t, step x s t → I s → I t) {xs : List α} {x : α} {s t : State}
    (turn : InTurn step xs s x t) (hs : I s) : I t := by
  induction turn with
  | first => exact hs
  | next passed _ ih => exact ih (h _ _ _ passed hs)

/-- Something that an evaluation runs. -/
inductive Task where
  | operand (n : Node)
  | statement (n : Node)
  /-- An expression found in a string. -/
  | spliced (n : Node)
  /-- The document that a target names. -/
  | included (target : String)

section

variable (src : Source) (hooks : Hooks)

/-- The evaluation of what is run. The error of a statement is located in it. -/
def Task.run : Task → Eval Value
  | operand n => n.evalWith src hooks
  | statement n => locating src.file n.pos? (n.evalWith src hooks)
  | spliced n => hooks.splice n
  | included target => hooks.inclusion target

/-- A statement runs to its end. -/
def Finishes (n : Node) (s t : State) : Prop :=
  ∃ v, n.evalWith src hooks s = (.ok v, t)

/-- An operand has a value, a call being taken apart. -/
def Gives (n : Node) (s : State) (v : Value) (t : State) : Prop :=
  ∃ r, n.evalWith src hooks s = (.ok r, t) ∧ r.unwrapCall n = .ok v

/-- A target has its turn: it is assigned what became of its value, and if that is an element that
could not be had, nothing. -/
def Assigns (pair : Target × Node) (s t : State) : Prop :=
  ∃ outcome u vars, attempt (pair.2.evalWith src hooks) s = (.ok outcome, u) ∧
    bindOutcome pair.1.name pair.2 outcome u = (.ok vars, t)

/-- A piece of a string has a text. -/
def Fills (piece : Piece) (s t : State) : Prop :=
  match piece with
  | .text _ => t = s
  | .hole inner => ∃ text, fillHole src hooks inner s = (.ok text, t)
  | .unclosed => False

/-- Whether the branch of an `IF` chain is taken has been found out. -/
def Decides (taken : Bool) (b : Branch Node) (s t : State) : Prop :=
  match b.condition with
  | none => taken = true ∧ t = s
  | some n => ∃ v, Gives src hooks n s v t ∧ holds v = .ok taken

/-- A step of a pipeline has a result, which goes under its name. A name without a step is passed. -/
def StepDone (steps : List (String × Node)) (name : String) (s t : State) : Prop :=
  match steps.lookup name with
  | none => t = s
  | some n => ∃ v w u, n.evalWith src hooks s = (.ok v, u) ∧ stepResult name v = .ok w ∧
    t = { u with scope := u.scope.set name w }

/-- What is run in the evaluation of a node from a state, and from which state; `here` says that it is
in the scope of the node, and not in one inside it. -/
inductive Runs : Node → State → (here : Bool) → Task → State → Prop
  | operand {n m : Node} {s : State} (first : n.operand? = some m) : Runs n s true (.operand m) s
  | right {op : BinaryOp} {left right : Node} {s t : State} {l : Value}
    (gives : Gives src hooks left s l t) (needed : ¬ (op = .coalesce ∧ (!l.isNullish) = true)) :
    Runs (.binary op left right) s true (.operand right) t
  | choice {condition yes no : Node} {s t : State} {c : Value} {taken : Bool}
    (ran : condition.evalWith src hooks s = (.ok c, t)) (chosen : choose c = .ok taken) :
    Runs (.ternary condition yes no) s true (.operand (if taken then yes else no)) t
  | item {n m : Node} {ms : List Node} {s t : State} (items : n.items? = some ms)
    (turn : InTurn (fun k s t => ∃ v, Gives src hooks k s v t) ms s m t) :
    Runs n s true (.operand m) t
  | pair {pairs : List (Target × Node)} {target : Target} {m : Node} {s t : State}
    (turn : InTurn (Assigns src hooks) pairs s (target, m) t) :
    Runs (.assignEach pairs) s true (.operand m) t
  | body {n m : Node} {ms : List Node} {s t : State} (body : n.body? = some ms)
    (turn : InTurn (Finishes src hooks) ms s.inside m t) : Runs n s false (.statement m) t
  /-- The entries of a map with blocks are not run as statements. -/
  | entry {items : List Node} {m : Node} {s t : State}
    (turn : InTurn (Finishes src hooks) (Node.blocksLast items) s.inside m t) :
    Runs (.combinedMap items) s false (.operand m) t
  | condition {branches : List (Branch Node)} {m : Node} {body : List Node} {pos : Position}
    {s t : State} (turn : InTurn (Decides src hooks false) branches s ⟨some m, body, pos⟩ t) :
    Runs (.control branches) s true (.operand m) t
  | branch {branches : List (Branch Node)} {b : Branch Node} {m : Node} {s t u v : State}
    (turn : InTurn (Decides src hooks false) branches s b t) (taken : Decides src hooks true b t u)
    (later : InTurn (Finishes src hooks) b.body u m v) : Runs (.control branches) s true (.statement m) v
  | step {body : List Node} {pos : Position} {names : List String} {name : String} {m : Node}
    {s t : State}
    (order : Pipeline.order ((Node.stepNodes body).map Prod.fst) (arrowsOf body) = .ok names)
    (turn : InTurn (StepDone src hooks (Node.stepNodes body)) names s.inside name t)
    (found : (Node.stepNodes body).lookup name = some m) :
    Runs (.pipeline body pos) s false (.operand m) t
  | program {cmd : Node} {args dir : Option Node} {pos : Position} {s : State}
    (allowed : src.engine.settings.allowExec = true) :
    Runs (.exec cmd args dir pos) s true (.operand cmd) s
  | arguments {cmd m : Node} {dir : Option Node} {pos : Position} {s t : State} {c : Value}
    {program : String} (allowed : src.engine.settings.allowExec = true)
    (gives : Gives src hooks cmd s c t) (isProgram : programOf c = .ok program) :
    Runs (.exec cmd (some m) dir pos) s true (.operand m) t
  | directory {cmd m : Node} {args : Option Node} {pos : Position} {s t u : State} {c a : Value}
    {program : String} (allowed : src.engine.settings.allowExec = true)
    (gives : Gives src hooks cmd s c t) (isProgram : programOf c = .ok program)
    (arguments : evalOption src hooks args t = (.ok a, u)) :
    Runs (.exec cmd args (some m) pos) s true (.operand m) u
  | hole {text : String} {quote : Char} {tag : Option String} {inner : List Char} {m : Node}
    {s t : State} (turn : InTurn (Fills src hooks) (Piece.split text.toList) s (.hole inner) t)
    (read : Hole.read inner src.file = .expression m) :
    Runs (.literal (.str text quote tag)) s true (.spliced m) t
  | inclusion {target : Node} {pos : Position} {text : String} {s t : State}
    (gives : Gives src hooks target s (.str text) t) :
    Runs (.inclusion target pos) s true (.included text) t

end

/-! ## 2. Properties that parts pass on -/

/-- A property of evaluations from states that a sequence inherits from its members. -/
structure Inherited (P : {α : Type} → Eval α → State → Prop) : Prop where
  pure {α : Type} (a : α) (s : State) : P (pure a) s
  bind {α β : Type} {x : Eval α} {f : α → Eval β} {s : State} (h : P x s)
    (hf : ∀ a t, x s = (.ok a, t) → P (f a) t) : P (x >>= f) s
  fail {α : Type} {e : EvalError} (plain : e.isPlain = true) (s : State) : P (fail e : Eval α) s
  scope (s : State) : P scope s
  world (s : State) : P world s
  attempt {α : Type} {x : Eval α} {s : State} (h : P x s) : P (attempt x) s

/-- A property that an evaluation has in a scope, if another one is had by what it does in the scope
inside. -/
structure Encloses (P P' : {α : Type} → Eval α → State → Prop) : Prop where
  inChild {x : Eval Unit} {s : State} (h : P' x s.inside) : P (inChild x) s
  /-- What a pipeline does with its scope. -/
  aside {α : Type} {x : Eval α} {s : State} (h : P' x s.inside) :
    P (fun s => match x { s with scope := s.scope.child } with
      | (r, s') => (r, { s' with scope := s.scope })) s

section Results

variable {α : Type} {x : Eval α} {s t : State} {a : α}

/-- A result that is given was there before, and the state is as it was. -/
theorem eq_of_ofExcept {r : Except EvalError α} (h : ofExcept r s = (.ok a, t)) :
    r = .ok a ∧ t = s := by
  cases r with
  | error e => cases h
  | ok b =>
    cases h
    exact ⟨rfl, rfl⟩

/-- Of a sequence that succeeds every member does. -/
theorem bind_eq_ok {β : Type} {f : α → Eval β} {b : β} (h : (x >>= f) s = (.ok b, t)) :
    ∃ a u, x s = (.ok a, u) ∧ f a u = (.ok b, t) := by
  rw [bind_apply] at h
  rcases hx : x s with ⟨fault | a, u⟩
  · rw [hx] at h
    cases h
  · rw [hx] at h
    exact ⟨a, u, rfl, h⟩

/-- Whether an evaluation succeeds does not depend on whether its errors are located. -/
theorem locating_eq_ok {file : String} {pos : Option Position}
    (h : locating file pos x s = (.ok a, t)) : x s = (.ok a, t) := by
  unfold locating at h
  rcases hx : x s with ⟨(e | message) | b, s'⟩
  · rw [hx] at h
    cases pos <;> cases h
  · rw [hx] at h
    cases h
  · rw [hx] at h
    exact h

/-- Asking whether an evaluation fails and then failing with its error is evaluating. -/
theorem attempt_ofExcept {β : Type} (x : Eval α) (f : α → Eval β) :
    (attempt x >>= fun r => ofExcept r >>= f) = x >>= f := by
  funext s
  rw [bind_apply, bind_apply]
  unfold attempt
  rcases x s with ⟨(e | message) | a, s'⟩ <;> rfl

end Results

namespace Inherited

variable {P : {α : Type} → Eval α → State → Prop} (hP : Inherited P) {src : Source} {hooks : Hooks}
  {s : State}

include hP

/-- What is done with a value outside of evaluation changes nothing of the property. -/
theorem map {α β : Type} {x : Eval α} (h : P x s) (f : α → β) :
    P (x >>= fun a => Pure.pure (f a)) s :=
  hP.bind h fun a t _ => hP.pure (f a) t

/-- A result that is plain is inherited without having run anything. -/
theorem ofExcept {α : Type} {r : Except EvalError α} (plain : PlainResult r) (s : State) :
    P (ofExcept r) s := by
  cases r with
  | ok a => exact hP.pure a s
  | error e => exact hP.fail (plain e rfl) s

/-- Reading the scope is no part that would have to be looked at. -/
theorem own {α : Type} {f : Scope → Eval α} (h : ∀ scope, P (f scope) s) :
    P (Eval.scope >>= f) s := by
  refine hP.bind (hP.scope s) fun scope t read => ?_
  cases read
  exact h s.scope

/-- Neither is reading the world. -/
theorem surroundings {α : Type} {f : World → Eval α} (h : ∀ w, P (f w) s) :
    P (Eval.world >>= f) s := by
  refine hP.bind (hP.world s) fun w t read => ?_
  cases read
  exact h s.world

/-! ### What is set -/

section

variable {names : List String}
  (written : ∀ name ∈ names, ∀ v t, P (modifyScope fun s => s.set name v) t)

include written

theorem bindValue {name : String} (known : name ∈ names) (source : Node) (v : Value) (s : State) :
    P (Eval.bind name source v) s := by
  unfold Eval.bind
  refine hP.bind (hP.ofExcept (v.plain_unwrapCall source) s) fun v t _ => ?_
  exact hP.map (written name known _ t) _

theorem bindElement {name : String} (known : name ∈ names) (source : Node)
    (r : Except EvalError Value) (s : State) : P (bindElement name source r) s := by
  cases r with
  | ok v => exact hP.bindValue written known source v s
  | error e => exact hP.pure [] s

/-- A value is evaluated and assigned. Its error is passed on as it is, with the place that it may
have, unless the value is an element of another one. -/
theorem assigned {name : String} (known : name ∈ names) {n : Node} {x : Eval Value} {s : State}
    (h : P x s) : P (Eval.attempt x >>= Eval.bindOutcome name n) s := by
  unfold Eval.bindOutcome
  cases n.isExtract with
  | true => exact hP.bind (hP.attempt h) fun r t _ => hP.bindElement written known n r t
  | false =>
    simp only [Bool.false_eq_true, if_false, attempt_ofExcept]
    exact hP.bind h fun v t _ => hP.bindValue written known n v t

/-- Names that take one result apart are set in turn. All of them are names of the node, which is all that
has to be known of them. -/
theorem bindElements (source : Node) (r : Except EvalError Value) (index : Nat)
    {targets : List Target} (known : ∀ target ∈ targets, target.name ∈ names) (s : State) :
    P (bindElements source r index targets) s := by
  induction targets generalizing index s with
  | nil => exact hP.pure [] s
  | cons target targets ih =>
    unfold Eval.bindElements
    refine hP.bind ?_ fun vars t _ => ?_
    · exact hP.bindElement written (known target List.mem_cons_self) _ _ s
    · exact hP.map (ih (index + 1) (fun k hk => known k (List.mem_cons_of_mem _ hk)) t) _

/-- A block sets its kind and its label. -/
theorem registerBlock {kind label : String} (knownKind : kind ∈ names) (knownLabel : label ∈ names)
    (props : Table Value) (s : State) : P (registerBlock kind label props) s := by
  unfold Eval.registerBlock
  refine hP.own fun scope => ?_
  -- The block is registered by one change of the scope that sets two names.
  exact hP.map (hP.bind (written kind knownKind _ s) fun _ t _ => written label knownLabel _ t) _

/-- An arrow sets the name of its relation. -/
theorem registerArrow {relation : String} (known : relation ∈ names) (source target : String)
    (props : Table Value) (s : State) : P (registerArrow relation source target props) s := by
  unfold Eval.registerArrow
  exact hP.own fun scope => hP.map (written relation known _ s) _

end

/-! ### What is run in turn -/

/-- An operand, a call taken apart, and what is done with its value. -/
theorem operand {β : Type} {n : Node} (h : P (n.evalWith src hooks) s) {f : Value → Eval β}
    (hf : ∀ v t, Gives src hooks n s v t → P (f v) t) :
    P (n.evalWith src hooks >>= fun v => Eval.ofExcept (v.unwrapCall n) >>= f) s := by
  refine hP.bind h fun r t ran => hP.bind (hP.ofExcept (r.plain_unwrapCall n) t) fun v u taken => ?_
  obtain ⟨unwrapped, rfl⟩ := eq_of_ofExcept taken
  exact hf v u ⟨r, ran, unwrapped⟩

/-- An operand that is the result. -/
theorem lastOperand {n : Node} (h : P (n.evalWith src hooks) s) :
    P (n.evalWith src hooks >>= fun v => Eval.ofExcept (v.unwrapCall n)) s :=
  hP.bind h fun r t _ => hP.ofExcept (r.plain_unwrapCall n) t

/-- Statements inherit the property from those that have their turn. From which state one begins is said in
the assumption, so it only has to be shown of states that are really come to. -/
theorem evalStatements {ns : List Node}
    (h : ∀ m t, InTurn (Finishes src hooks) ns s m t →
      P (locating src.file m.pos? (m.evalWith src hooks)) t) :
    P (evalStatements src hooks ns) s := by
  induction ns generalizing s with
  | nil => exact hP.pure () s
  | cons n ns ih =>
    unfold BlockConfig.evalStatements
    refine hP.bind (h n s .first) fun v t ran => ih fun m u later => ?_
    exact h m u (.next ⟨v, locating_eq_ok ran⟩ later)

/-- Entries that are evaluated one after another, errors unlocated. -/
theorem evalSelected {ns : List Node} {selected : Node → Bool}
    (h : ∀ m t, InTurn (Finishes src hooks) (ns.filter selected) s m t →
      P (m.evalWith src hooks) t) :
    P (evalSelected src hooks selected ns) s := by
  induction ns generalizing s with
  | nil => exact hP.pure () s
  | cons n ns ih =>
    unfold BlockConfig.evalSelected
    cases chosen : selected n with
    | true =>
      rw [List.filter_cons_of_pos chosen] at h
      exact hP.bind (h n s .first) fun v t ran => ih fun m u later => h m u (.next ⟨v, ran⟩ later)
    | false =>
      rw [List.filter_cons_of_neg (by rw [chosen]; decide)] at h
      exact ih h

omit hP in
/-- What has its turn after the entries that are selected. -/
theorem inTurn_after_selected {ns ms : List Node} {selected : Node → Bool} {m : Node} {t u : State}
    (ran : BlockConfig.evalSelected src hooks selected ns s = (.ok (), t))
    (h : InTurn (Finishes src hooks) ms t m u) :
    InTurn (Finishes src hooks) (ns.filter selected ++ ms) s m u := by
  induction ns generalizing s with
  | nil =>
    cases ran
    exact h
  | cons n ns ih =>
    unfold BlockConfig.evalSelected at ran
    cases chosen : selected n with
    | true =>
      rw [chosen, if_pos rfl] at ran
      rw [List.filter_cons_of_pos chosen]
      obtain ⟨v, s', first, ran⟩ := bind_eq_ok ran
      exact .next ⟨v, first⟩ (ih ran)
    | false =>
      rw [chosen] at ran
      rw [List.filter_cons_of_neg (by rw [chosen]; decide)]
      exact ih ran

/-- Items inherit it in the same way, each from the state that the ones before have left. -/
theorem evalValues {ns : List Node}
    (h : ∀ m t, InTurn (fun k s t => ∃ v, Gives src hooks k s v t) ns s m t →
      P (m.evalWith src hooks) t) : P (evalValues src hooks ns) s := by
  induction ns generalizing s with
  | nil => exact hP.pure [] s
  | cons n ns ih =>
    unfold BlockConfig.evalValues
    refine hP.operand (h n s .first) fun v t gives => hP.map (ih fun m u later => ?_) _
    exact h m u (.next ⟨v, gives⟩ later)

/-- A part that may be missing. -/
theorem evalOption {o : Option Node} (h : ∀ m, o = some m → P (m.evalWith src hooks) s) :
    P (evalOption src hooks o) s := by
  cases o with
  | none => exact hP.pure Value.null s
  | some m => exact hP.lastOperand (h m rfl)

/-- Several assignments inherit it from the values that have their turn and from setting the names. -/
theorem evalPairs {pairs : List (Target × Node)} {names : List String}
    (written : ∀ name ∈ names, ∀ v t, P (modifyScope fun s => s.set name v) t)
    (known : ∀ pair ∈ pairs, pair.1.name ∈ names)
    (h : ∀ target m t, InTurn (Assigns src hooks) pairs s (target, m) t → P (m.evalWith src hooks) t) :
    P (evalPairs src hooks pairs) s := by
  induction pairs generalizing s with
  | nil => exact hP.pure [] s
  | cons pair pairs ih =>
    obtain ⟨target, n⟩ := pair
    unfold BlockConfig.evalPairs
    rw [← bind_assoc]
    refine hP.bind (hP.assigned written (known _ List.mem_cons_self) (h target n s .first))
      fun vars u bound => hP.map (ih ?_ fun target' m w later => ?_) _
    · exact fun k hk => known k (List.mem_cons_of_mem _ hk)
    · obtain ⟨outcome, t, ran, bound⟩ := bind_eq_ok bound
      exact h target' m w (.next ⟨outcome, t, vars, ran, bound⟩ later)

/-- A chain inherits it from the conditions that have their turn, and from the statements of the one link
whose condition holds. -/
theorem evalBranches {bs : List (Branch Node)}
    (hc : ∀ m body pos t, InTurn (Decides src hooks false) bs s ⟨some m, body, pos⟩ t →
      P (m.evalWith src hooks) t)
    (hb : ∀ b t u m v, InTurn (Decides src hooks false) bs s b t → Decides src hooks true b t u →
      InTurn (Finishes src hooks) b.body u m v →
      P (locating src.file m.pos? (m.evalWith src hooks)) v) :
    P (evalBranches src hooks bs) s := by
  induction bs generalizing s with
  | nil => exact hP.pure Value.undefined s
  | cons b bs ih =>
    obtain ⟨condition, body, pos⟩ := b
    -- What follows the condition: the body if the branch is taken, and else the other branches.
    have hlink : ∀ taken t, Decides src hooks taken ⟨condition, body, pos⟩ s t →
        P (if taken = true then do BlockConfig.evalStatements src hooks body; return .undefined
            else BlockConfig.evalBranches src hooks bs) t := by
      intro taken t decided
      cases taken with
      | true => exact hP.map (hP.evalStatements fun m v later => hb _ s t m v .first decided later) _
      | false =>
        refine ih (fun m body pos u later => ?_) fun b u v m w later => ?_
        · exact hc m body pos u (.next decided later)
        · exact hb b u v m w (.next decided later)
    unfold BlockConfig.evalBranches
    cases condition with
    | none => exact hlink true s ⟨rfl, rfl⟩
    | some n =>
      refine hP.operand (hc n body pos s .first) fun v t gives => ?_
      refine hP.bind (hP.ofExcept (plain_holds v) t) fun taken u decided => ?_
      obtain ⟨held, rfl⟩ := eq_of_ofExcept decided
      exact hlink taken u ⟨v, gives, held⟩

/-- An expression in a string inherits it from what is read there, if anything is. -/
theorem fillHole {inner : List Char}
    (h : ∀ m, Hole.read inner src.file = .expression m → P (hooks.splice m) s) :
    P (fillHole src hooks inner) s := by
  unfold Eval.fillHole
  cases hole : Hole.read inner src.file with
  | empty => exact hP.fail rfl s
  | reference name default => exact hP.map (hP.surroundings fun w => hP.pure _ s) _
  | expression m => exact hP.map (h m hole) _
  | unreadable reason => exact hP.fail rfl s

/-- A string inherits it from its expressions, each from the state that the earlier pieces have left. -/
theorem joinPieces {whole : String} {pieces : List Piece}
    (h : ∀ inner t, InTurn (Fills src hooks) pieces s (.hole inner) t →
      ∀ m, Hole.read inner src.file = .expression m → P (hooks.splice m) t) :
    P (joinPieces src hooks whole pieces) s := by
  induction pieces generalizing s with
  | nil => exact hP.pure "" s
  | cons piece pieces ih =>
    cases piece with
    | text cs => exact hP.map (ih fun inner t later => h inner t (.next rfl later)) _
    | hole inner =>
      unfold Eval.joinPieces
      refine hP.bind (hP.fillHole (h inner s .first)) fun here t filled => hP.map (ih ?_) _
      exact fun inner t later => h inner t (.next ⟨here, filled⟩ later)
    | unclosed => exact hP.fail rfl s

omit hP in
/-- The step of a name is the evaluation of the node of that name. -/
theorem lookup_stepsOf (body : List Node) (name : String) :
    (stepsOf src hooks body).lookup name =
      ((Node.stepNodes body).lookup name).map fun n => n.evalWith src hooks := by
  induction body with
  | nil => rfl
  | cons n ns ih =>
    cases n with
    | assign target value style =>
      rw [stepsOf, Node.stepNodes, List.lookup_cons, List.lookup_cons]
      cases name == target.name with
      | true => rfl
      | false => exact ih
    | _ => exact ih

omit hP in
/-- Steps and their nodes have the same names. -/
theorem names_stepsOf (body : List Node) :
    (stepsOf src hooks body).map Prod.fst = (Node.stepNodes body).map Prod.fst := by
  induction body with
  | nil => rfl
  | cons n ns ih =>
    cases n with
    | assign target value style =>
      rw [stepsOf, Node.stepNodes, List.map_cons, List.map_cons, ih]
    | _ => exact ih

/-- A pipeline inherits it from its steps in the order in which they run, and from setting their names. -/
theorem runSteps {body : List Node} {output : Value} {names : List String}
    (written : ∀ name v t, P (modifyScope fun s => s.set name v) t)
    (h : ∀ name m t, InTurn (StepDone src hooks (Node.stepNodes body)) names s name t →
      (Node.stepNodes body).lookup name = some m → P (m.evalWith src hooks) t) :
    P (runSteps (stepsOf src hooks body) output names) s := by
  induction names generalizing s output with
  | nil => exact hP.pure output s
  | cons name names ih =>
    unfold Eval.runSteps
    rw [lookup_stepsOf]
    cases found : (Node.stepNodes body).lookup name with
    | none =>
      refine ih fun name' m t later => h name' m t (.next ?_ later)
      unfold StepDone
      rw [found]
    | some m =>
      refine hP.bind (h name m s .first found) fun v t ran => ?_
      refine hP.bind (hP.ofExcept (plain_stepResult name v) t) fun w u result => ?_
      obtain ⟨passed, rfl⟩ := eq_of_ofExcept result
      refine hP.bind (written name w u) fun _ u' set => ?_
      refine ih fun name' m t later => h name' m t (.next ?_ later)
      unfold StepDone
      rw [found]
      cases set
      exact ⟨v, w, u, ran, passed, rfl⟩

end Inherited

/-! ## 3. Properties of a whole evaluation -/

section

variable {P P' : {α : Type} → Eval α → State → Prop} {src : Source} {hooks : Hooks} {n : Node}
  {s : State}

/-- **What holds of everything that an evaluation runs holds of the evaluation,** if sequences inherit
it and if it holds of what the node does itself. What runs in a scope inside has a property of its
own. -/
theorem evalWith_of_runs (hP : Inherited P) (hP' : Inherited P') (encloses : Encloses P P')
    (stepped : ∀ name v t, P' (modifyScope fun s => s.set name v) t)
    (written : ∀ name ∈ n.targets, ∀ v t, P (modifyScope fun s => s.set name v) t)
    (called : ∀ f values t, P (call f values) t)
    (commanded : src.engine.settings.allowExec = true → ∀ c t, P (runCommand src c) t)
    (here : ∀ task t, Runs src hooks n s true task t → P (task.run src hooks) t)
    (inside : ∀ task t, Runs src hooks n s false task t → P' (task.run src hooks) t) :
    P (n.evalWith src hooks) s := by
  -- What the node has to run, in the forms in which its cases ask for it: the operand that it begins
  -- with, the statements of its body, and the members of its list.
  have operand : ∀ m, n.operand? = some m → P (m.evalWith src hooks) s :=
    fun m first => here (.operand m) s (.operand first)
  have body : ∀ ms, n.body? = some ms → P (inChild (evalStatements src hooks ms)) s :=
    fun ms h => encloses.inChild <| hP'.evalStatements fun m t turn =>
      inside (.statement m) t (.body h turn)
  have items : ∀ ms, n.items? = some ms → P (evalValues src hooks ms) s :=
    fun ms h => hP.evalValues fun m t turn => here (.operand m) t (.item h turn)
  cases n with
  | assign target value style =>
    simp only [Node.evalWith]
    rw [← bind_assoc]
    exact hP.map (hP.assigned written List.mem_cons_self (operand value rfl)) _
  | assignEach pairs =>
    simp only [Node.evalWith]
    refine hP.map (hP.evalPairs written (fun pair hp => List.mem_map_of_mem hp) ?_) _
    exact fun target m t turn => here (.operand m) t (.pair turn)
  | destructure targets source =>
    simp only [Node.evalWith]
    refine hP.bind (hP.attempt (operand source rfl)) fun r t _ => ?_
    refine hP.map (hP.bindElements written source r 0 (fun target ht => ?_) t) _
    exact List.mem_map_of_mem ht
  | block kind label ns pos =>
    simp only [Node.evalWith]
    refine hP.bind (body ns rfl) fun props t _ => ?_
    exact hP.registerBlock written (by simp [Node.targets]) (by simp [Node.targets]) props t
  | container kind ns pos =>
    simp only [Node.evalWith]
    refine hP.bind (body ns rfl) fun vars t _ => ?_
    exact hP.map (written kind List.mem_cons_self _ t) _
  | arrow relation source target ns pos =>
    simp only [Node.evalWith]
    refine hP.bind (body ns rfl) fun props t _ => ?_
    exact hP.registerArrow written List.mem_cons_self source target props t
  | map entries =>
    simp only [Node.evalWith]
    exact hP.map (body entries rfl) _
  | combinedMap entries =>
    simp only [Node.evalWith]
    refine hP.map (encloses.inChild ?_) _
    refine hP'.bind (hP'.evalSelected fun m t turn => ?_) fun _ t ran =>
      hP'.evalSelected fun m u turn => ?_
    -- The entries that are no blocks run first, and the blocks after them.
    · exact inside (.operand m) t (.entry (turn.append _))
    · exact inside (.operand m) u (.entry (Inherited.inTurn_after_selected ran turn))
  | list ns =>
    simp only [Node.evalWith]
    exact hP.map (items ns rfl) _
  | literal value =>
    simp only [Node.evalWith]
    cases value with
    | str text quote tag =>
      refine hP.map (hP.joinPieces fun inner t turn m read => ?_) _
      exact here (.spliced m) t (.hole turn read)
    | int i => exact hP.pure _ s
    | float x => exact hP.pure _ s
    | bool b => exact hP.pure _ s
    | null => exact hP.pure _ s
  | ident name =>
    simp only [Node.evalWith]
    split
    · exact hP.pure _ s
    · exact hP.own fun scope => hP.pure _ s
  | member left name =>
    simp only [Node.evalWith]
    refine hP.operand (operand left rfl) fun target t _ => ?_
    refine hP.surroundings fun w => hP.own fun scope => ?_
    exact hP.ofExcept (Value.plain_member target name scope _) t
  | binary op left right =>
    simp only [Node.evalWith]
    refine hP.operand (operand left rfl) fun l t gives => ?_
    split
    · exact hP.pure l t
    · rename_i needed
      refine hP.operand (here (.operand right) t (.right gives needed)) fun r u _ => ?_
      exact hP.ofExcept (Value.plain_binary op l r) u
  | unary op inner =>
    simp only [Node.evalWith]
    refine hP.operand (operand inner rfl) fun v t _ => ?_
    exact hP.ofExcept (v.plain_unary op) t
  | ternary condition yes no =>
    simp only [Node.evalWith]
    refine hP.bind (operand condition rfl) fun c t ran => ?_
    refine hP.bind (hP.ofExcept (plain_choose c) t) fun taken u chosen => ?_
    obtain ⟨chose, rfl⟩ := eq_of_ofExcept chosen
    have next := here _ u (.choice ran chose)
    cases taken with
    | true => exact hP.lastOperand next
    | false => exact hP.lastOperand next
  | group inner =>
    simp only [Node.evalWith]
    exact operand inner rfl
  | call name args pos =>
    simp only [Node.evalWith]
    refine hP.bind (items args rfl) fun values t _ => ?_
    refine hP.bind (hP.ofExcept (plain_function src name) t) fun f u _ => ?_
    exact called f values u
  | envRef name default =>
    simp only [Node.evalWith]
    exact hP.map (hP.surroundings fun w => hP.pure _ s) _
  | inclusion target pos =>
    simp only [Node.evalWith]
    refine hP.operand (operand target rfl) fun v t gives => ?_
    -- Inclusions are asked for a string only.
    split
    · exact here (.included _) t (.inclusion gives)
    · exact hP.fail rfl t
  | comment text =>
    simp only [Node.evalWith]
    exact hP.pure Value.undefined s
  | control branches =>
    -- The condition of a branch runs if those before have been false, and its body if it is true as
    -- well; `branch` knows both.
    simp only [Node.evalWith]
    refine hP.evalBranches (fun m ms pos t turn => ?_) fun b t u m v turn taken later => ?_
    · exact here (.operand m) t (.condition turn)
    · exact here (.statement m) v (.branch turn taken later)
  | pipeline ns pos =>
    simp only [Node.evalWith]
    unfold runPipeline
    -- The order does not depend on what the steps do, so it is known before any of them runs.
    rw [Inherited.names_stepsOf]
    split
    · exact hP.fail rfl s
    · rename_i names order
      refine encloses.aside (hP'.runSteps stepped fun name m t turn found => ?_)
      exact inside (.operand m) t (.step order turn found)
  | exec cmd args dir pos =>
    simp only [Node.evalWith]
    split
    · rename_i allowed
      refine hP.operand (here (.operand cmd) s (.program allowed)) fun c t gives => ?_
      refine hP.bind (hP.ofExcept (plain_programOf c) t) fun program u isProgram => ?_
      obtain ⟨known, rfl⟩ := eq_of_ofExcept isProgram
      refine hP.bind (hP.evalOption fun m hm => ?_) fun a v ran => ?_
      · subst hm
        exact here (.operand m) u (.arguments allowed gives known)
      · refine hP.bind (hP.evalOption fun m hm => ?_) fun d w _ => ?_
        · subst hm
          exact here (.operand m) v (.directory allowed gives known ran)
        · refine hP.bind (hP.ofExcept (plain_directoryOf src d) w) fun directory x _ => ?_
          exact commanded allowed _ x
    · exact hP.fail rfl s
  | extract source index =>
    simp only [Node.evalWith]
    refine hP.bind (operand source rfl) fun v t _ => ?_
    exact hP.ofExcept (v.plain_element index) t

end

end Eval

end BlockConfig
