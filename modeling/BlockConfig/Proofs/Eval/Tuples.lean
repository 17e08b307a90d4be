import BlockConfig.Proofs.Eval.Activity
import BlockConfig.Proofs.Value.Untupled

/-!
Tuples of calls do not escape.

A node gives the tuple of a call to what it is a part of, and there it is taken apart before anything is
made of it. What this comes to is a contract of evaluations (`Eval.Yields`): in scopes without tuples they
leave scopes without tuples, and they give what they are to give. A node gives a result, which may be the
tuple of a call (`Value.IsResult`); its value, all that is assigned and all that is passed on are untupled.

The contract is put together from those of the operations that evaluation is made of, and holds of every
tree by induction (`Eval.givesResult`), then of expressions in strings and of documents that are
included. Since it holds wherever an evaluation begins in untupled scopes, and whatever runs before a part
leaves such scopes (`Activity.Part.untupled`), there is no tuple in any scope of any activity.
-/

set_option autoImplicit false

namespace BlockConfig

namespace Eval

/-! ## 1. The contract -/

/-- In untupled scopes, an evaluation leaves untupled scopes and gives what it is to give. -/
def Yields {α : Type} (Q : α → Prop) (x : Eval α) : Prop :=
  ∀ s : State, s.scope.Untupled → (x s).2.scope.Untupled ∧ ∀ a, (x s).1 = .ok a → Q a

namespace Yields

variable {α β : Type} {Q : α → Prop} {R : β → Prop} {x : Eval α}

/-- Giving a value touches no scope, so all that is asked for is that the value is as it should be. -/
theorem pure {a : α} (h : Q a) : Yields Q (pure a) := by
  intro s hs
  refine ⟨hs, fun b given => ?_⟩
  cases given
  exact h

/-- What goes on with a value may rely on what that value is known to be, and begins in the scopes that the
first part has left. -/
theorem bind {f : α → Eval β} (h : Yields Q x) (hf : ∀ a, Q a → Yields R (f a)) :
    Yields R (x >>= f) := by
  intro s hs
  obtain ⟨left, given⟩ := h s hs
  rw [bind_apply]
  generalize x s = ending at left given
  rcases ending with ⟨fault | a, t⟩
  · exact ⟨left, nofun⟩
  · exact hf a (given a rfl) t left

/-- An evaluation that fails gives nothing, and leaves the scopes as they were. -/
theorem fail (e : EvalError) : Yields Q (fail e) :=
  fun _ hs => ⟨hs, nofun⟩

/-- A result that was computed outside of evaluation keeps what is known of it. -/
theorem ofExcept {r : Except EvalError α} (h : ∀ a, r = .ok a → Q a) : Yields Q (ofExcept r) := by
  cases r with
  | ok a => exact .pure (h a rfl)
  | error e => exact .fail e

/-- What is done with a result when that is not evaluation any more. -/
theorem map (h : Yields Q x) {f : α → β} (hf : ∀ a, Q a → R (f a)) :
    Yields R (x >>= fun a => Pure.pure (f a)) :=
  h.bind fun a ha => .pure (hf a ha)

theorem mono {Q' : α → Prop} (h : Yields Q x) (hQ : ∀ a, Q a → Q' a) : Yields Q' x := by
  intro s hs
  obtain ⟨left, given⟩ := h s hs
  exact ⟨left, fun a ha => hQ a (given a ha)⟩

/-- What is read of the scope may be taken to be untupled, since the contract only speaks of evaluations
that begin in untupled scopes. -/
theorem own {f : Scope → Eval α} (h : ∀ scope, scope.Untupled → Yields Q (f scope)) :
    Yields Q (scope >>= f) :=
  fun s hs => h s.scope hs s hs

/-- Of the world nothing is assumed. -/
theorem surroundings {f : World → Eval α} (h : ∀ w, Yields Q (f w)) : Yields Q (world >>= f) :=
  fun s hs => h s.world s hs

/-- Binding a name to an untupled value leaves the scope untupled. -/
theorem set {v : Value} (hv : v.Untupled) (name : String) :
    Yields (fun _ => True) (modifyScope fun s => s.set name v) :=
  fun _ hs => ⟨hs.set hv name, fun _ _ => trivial⟩

/-- An evaluation whose failure is caught. The value it gives is still what it was to be; a failure is a
value now, of which nothing is known. -/
theorem attempt (h : Yields Q x) : Yields (fun r => ∀ a, r = .ok a → Q a) (attempt x) := by
  intro s hs
  obtain ⟨left, given⟩ := h s hs
  unfold Eval.attempt
  generalize x s = ending at left given
  rcases ending with ⟨(e | message) | a, t⟩
  · refine ⟨left, fun r hr b hb => ?_⟩
    cases hr
    cases hb
  · exact ⟨left, nofun⟩
  · refine ⟨left, fun r hr b hb => ?_⟩
    cases hr
    cases hb
    exact given a rfl

/-- Where a failure is said to be does not matter here. -/
theorem locating (h : Yields Q x) (file : String) (pos : Option Position) :
    Yields Q (locating file pos x) := by
  intro s hs
  rw [state_locating]
  refine ⟨(h s hs).1, fun a given => (h s hs).2 a ?_⟩
  rcases ending : Eval.locating file pos x s with ⟨fault | b, t⟩
  · rw [ending] at given
    cases given
  · rw [ending] at given
    cases given
    rw [locating_eq_ok ending]

/-- Evaluation in another scope. What is handed back is the table of the names bound there, and that scope
is gone afterwards, so the scope it was called from is left as it was. -/
theorem within {act : Eval Unit} {Q : Unit → Prop} (h : Yields Q act) {other : Scope → Scope}
    (hother : ∀ scope : Scope, scope.Untupled → (other scope).Untupled) :
    Yields Table.Untupled (within other act) := by
  intro s hs
  rw [scope_within]
  refine ⟨hs, fun vars given => ?_⟩
  obtain ⟨left, -⟩ := h { s with scope := other s.scope } (hother s.scope hs)
  unfold Eval.within at given
  generalize act { s with scope := other s.scope } = ending at left given
  rcases ending with ⟨fault | _, t⟩
  · cases given
  · cases given
    exact left.own

/-- A scope below the present one is untupled when the present one is: it begins without names of its
own. -/
theorem inChild {act : Eval Unit} {Q : Unit → Prop} (h : Yields Q act) :
    Yields Table.Untupled (inChild act) :=
  h.within fun _ hs => hs.child

/-- What a pipeline does with its scope. -/
theorem aside (h : Yields Q x) :
    Yields Q (fun s => match x { s with scope := s.scope.child } with
      | (r, s') => (r, { s' with scope := s.scope })) := by
  intro s hs
  exact ⟨hs, (h { s with scope := s.scope.child } hs.child).2⟩

/-- A function gives a tuple of two parts, which are untupled because the function gives no tuples
itself. -/
theorem call {f : Callable} (hf : f.Untupled) {values : List Value} (h : ∀ v ∈ values, v.Untupled) :
    Yields Value.IsResult (call f values) := by
  intro s hs
  rw [state_call]
  refine ⟨hs, fun v given => ?_⟩
  have reply := hf values s.world.memory h
  unfold Eval.call at given
  generalize f values s.world.memory = answer at given reply
  rcases answer with ⟨w | message | message, memory⟩
  · cases given
    exact Value.isResult_ofCall fun v same => Except.ok.inj same ▸ reply
  · cases given
    exact Value.isResult_ofCall nofun
  · cases given

/-- A command gives the text of its output. -/
theorem runCommand (src : Source) (c : Command) : Yields Value.IsResult (runCommand src c) := by
  intro s hs
  rw [runCommand_apply]
  refine ⟨hs, fun v given => ?_⟩
  generalize src.engine.runner s.world.host c = answer at given
  cases answer with
  | error reason => cases given
  | ok output =>
    cases given
    exact .inl (Value.untupled_of_isScalar rfl)

end Yields

/-! ## 2. What nodes are put together from -/

section Assigning

/-- A name is bound to the value of a result and not to the pair itself. -/
theorem yields_bind (name : String) (source : Node) {v : Value} (h : v.IsResult) :
    Yields Table.Untupled (Eval.bind name source v) := by
  unfold Eval.bind
  refine Yields.bind (.ofExcept fun w taken => h.unwrapCall taken) fun w hw => ?_
  exact (Yields.set (hw.bound name) name).map fun _ _ => .cons (hw.bound name) .nil

/-- One of several names. If there is no element for it, the name stays as it is. -/
theorem yields_bindElement (name : String) (source : Node) {r : Except EvalError Value}
    (h : ∀ v, r = .ok v → v.IsResult) : Yields Table.Untupled (bindElement name source r) := by
  cases r with
  | ok v => exact yields_bind name source (h v rfl)
  | error e => exact .pure .nil

/-- The error of an extraction is not the error of the assignment, which then assigns nothing. -/
theorem yields_bindOutcome (name : String) (source : Node) {r : Except EvalError Value}
    (h : ∀ v, r = .ok v → v.IsResult) : Yields Table.Untupled (bindOutcome name source r) := by
  unfold Eval.bindOutcome
  split
  · exact yields_bindElement name source h
  · exact Yields.bind (.ofExcept h) fun v hv => yields_bind name source hv

/-- Several names that take one value apart, a tuple or a list element by element. The elements of the tuple
of a call are untupled, so each of them may be bound. -/
theorem yields_bindElements (source : Node) {r : Except EvalError Value}
    (h : ∀ v, r = .ok v → v.IsResult) (index : Nat) (targets : List Target) :
    Yields Table.Untupled (bindElements source r index targets) := by
  induction targets generalizing index with
  | nil => exact .pure .nil
  | cons target targets ih =>
    unfold Eval.bindElements
    refine (yields_bindElement target.name _ fun v given => ?_).bind fun vars hvars => ?_
    · cases r with
      | ok w => exact .inl ((h w rfl).element given)
      | error e => cases given
    · exact (ih (index + 1)).map fun more hmore => hvars.union hmore

/-- A block is put into the table of its kind, next to those that are there already. That table is untupled
because the scope is. -/
theorem yields_registerBlock (kind label : String) {props : Table Value} (h : Table.Untupled props) :
    Yields Value.Untupled (registerBlock kind label props) := by
  unfold Eval.registerBlock
  refine .own fun scope hscope => ?_
  have hprops : Table.Untupled (if Table.contains props "name" = true then props
      else Table.insert props "name" (.str label)) := by
    split
    · exact h
    · exact h.insert (Value.untupled_of_isScalar rfl) "name"
  have hblock := Value.untupled_block kind label hprops
  -- The block is registered by one change of the scope that sets two names.
  have register {bucket : Table Value} (hbucket : Table.Untupled bucket) :=
    (Yields.set (Value.untupled_map.2 (hbucket.insert hblock label)) kind).bind fun _ _ =>
      Yields.set hblock label
  refine (register ?_).map fun _ _ => hblock
  split
  · rename_i entries found
    split
    · exact .nil
    · exact Value.untupled_map.1 (hscope.findOwn? found)
  · exact .nil

/-- An arrow is put at the end of the list of its relation. -/
theorem yields_registerArrow (relation source target : String) {props : Table Value}
    (h : Table.Untupled props) :
    Yields Value.Untupled (registerArrow relation source target props) := by
  unfold Eval.registerArrow
  refine .own fun scope hscope => ?_
  have text (s : String) : (Value.str s).Untupled := Value.untupled_of_isScalar rfl
  have hprops := (h.insert (text source) "source").insert (text target) "target"
  have hrecord : Table.Untupled [("props", .map (Table.insert (Table.insert props "source" (.str source))
      "target" (.str target))), ("type", .str relation)] :=
    .cons (Value.untupled_map.2 hprops) (.cons (text relation) .nil)
  have hrecord := Value.untupled_map.2 hrecord
  refine Yields.map (Yields.set (Value.untupled_list.2 fun v hv => ?_) relation) fun _ _ => hrecord
  rcases List.mem_append.1 hv with hv | hv
  · split at hv
    · rename_i items found
      exact Value.untupled_list.1 (hscope.findOwn? found) v hv
    · exact absurd hv List.not_mem_nil
  · rw [List.mem_singleton.1 hv]
    exact hrecord

end Assigning

/-! ## 3. Trees -/

section Trees

variable {src : Source} {hooks : Hooks} {n : Node} {ns : List Node}

/-- Where evaluation leaves a tree, the contract holds. -/
structure HooksYield (hooks : Hooks) : Prop where
  splice (m : Node) : Yields Value.Untupled (hooks.splice m)
  inclusion (target : String) : Yields Value.Untupled (hooks.inclusion target)

variable (src hooks) in
/-- A node gives a result. -/
def GivesResult (n : Node) : Prop :=
  Yields Value.IsResult (n.evalWith src hooks)

/-- An operand, a call taken apart, and what is done with its value. -/
theorem GivesResult.operand {β : Type} {R : β → Prop} (h : GivesResult src hooks n)
    {f : Value → Eval β} (hf : ∀ v, v.Untupled → Yields R (f v)) :
    Yields R (n.evalWith src hooks >>= fun v => ofExcept (v.unwrapCall n) >>= f) :=
  Yields.bind h fun _ hv => Yields.bind (.ofExcept fun _ taken => hv.unwrapCall taken) hf

/-- An operand that is the result. -/
theorem GivesResult.lastOperand (h : GivesResult src hooks n) :
    Yields Value.Untupled (n.evalWith src hooks >>= fun v => ofExcept (v.unwrapCall n)) :=
  Yields.bind h fun _ hv => .ofExcept fun _ taken => hv.unwrapCall taken

/-- Statements, one after the other. Their values are thrown away, so all that is left to say is what they
do to the scope. -/
theorem yields_evalStatements (h : ∀ m ∈ ns, GivesResult src hooks m) :
    Yields (fun _ => True) (evalStatements src hooks ns) := by
  induction ns with
  | nil => exact .pure trivial
  | cons n ns ih =>
    unfold BlockConfig.evalStatements
    refine ((h n List.mem_cons_self).locating src.file n.pos?).bind fun _ _ => ?_
    exact ih fun m hm => h m (List.mem_cons_of_mem n hm)

/-- Those statements that are selected; the others are passed over. -/
theorem yields_evalSelected (selected : Node → Bool) (h : ∀ m ∈ ns, GivesResult src hooks m) :
    Yields (fun _ => True) (evalSelected src hooks selected ns) := by
  induction ns with
  | nil => exact .pure trivial
  | cons n ns ih =>
    have hrest := ih fun m hm => h m (List.mem_cons_of_mem n hm)
    unfold BlockConfig.evalSelected
    cases selected n with
    | true => exact Yields.bind (h n List.mem_cons_self) fun _ _ => hrest
    | false => exact hrest

/-- Items and arguments. Each is used as a value, so the pair of a call among them has been taken apart. -/
theorem yields_evalValues (h : ∀ m ∈ ns, GivesResult src hooks m) :
    Yields (fun values => ∀ v ∈ values, v.Untupled) (evalValues src hooks ns) := by
  induction ns with
  | nil => exact .pure fun _ hv => absurd hv List.not_mem_nil
  | cons n ns ih =>
    unfold BlockConfig.evalValues
    refine (h n List.mem_cons_self).operand fun v hv => ?_
    refine (ih fun m hm => h m (List.mem_cons_of_mem n hm)).map fun values hvalues => ?_
    exact List.forall_mem_cons.2 ⟨hv, hvalues⟩

/-- A part that may be missing, in which case it is undefined. -/
theorem yields_evalOption {o : Option Node} (h : ∀ m ∈ o, GivesResult src hooks m) :
    Yields Value.Untupled (evalOption src hooks o) := by
  cases o with
  | none => exact .pure (Value.untupled_of_isScalar rfl)
  | some n => exact (h n rfl).lastOperand

/-- Several names that get a value each. -/
theorem yields_evalPairs {pairs : List (Target × Node)}
    (h : ∀ p ∈ pairs, GivesResult src hooks p.2) :
    Yields Table.Untupled (evalPairs src hooks pairs) := by
  induction pairs with
  | nil => exact .pure .nil
  | cons p ps ih =>
    obtain ⟨target, n⟩ := p
    unfold BlockConfig.evalPairs
    refine (Yields.attempt (h (target, n) List.mem_cons_self)).bind fun r hr => ?_
    refine (yields_bindOutcome target.name n hr).bind fun vars hvars => ?_
    refine (ih fun q hq => h q (List.mem_cons_of_mem _ hq)).map fun more hmore => ?_
    exact hvars.union hmore

/-- A chain gives nothing. The statements of the link that is taken write to the scope around it. -/
theorem yields_evalBranches {bs : List (Branch Node)}
    (hc : ∀ b ∈ bs, ∀ m ∈ b.condition, GivesResult src hooks m)
    (hb : ∀ b ∈ bs, ∀ m ∈ b.body, GivesResult src hooks m) :
    Yields Value.Untupled (evalBranches src hooks bs) := by
  have undefined : Value.Untupled .undefined := Value.untupled_of_isScalar rfl
  induction bs with
  | nil => exact .pure undefined
  | cons b bs ih =>
    obtain ⟨condition, body, pos⟩ := b
    have hrest := ih (fun b h => hc b (List.mem_cons_of_mem _ h))
      fun b h => hb b (List.mem_cons_of_mem _ h)
    have hbody := yields_evalStatements (hb ⟨condition, body, pos⟩ List.mem_cons_self)
    have hlink : ∀ taken : Bool, Yields Value.Untupled
        (if taken = true then do BlockConfig.evalStatements src hooks body; return .undefined
          else BlockConfig.evalBranches src hooks bs) := by
      intro taken
      cases taken with
      | true => exact hbody.map fun _ _ => undefined
      | false => exact hrest
    unfold BlockConfig.evalBranches
    cases condition with
    | none => exact hlink true
    | some n =>
      refine (hc ⟨some n, body, pos⟩ List.mem_cons_self n rfl).operand fun v _ => ?_
      exact Yields.bind (.ofExcept fun _ _ => trivial) fun taken _ => hlink taken

/-- The text of an expression in a string: what is evaluated there was parsed from the text, and is covered
by the assumption on the hooks. -/
theorem yields_fillHole (hooked : HooksYield hooks) (inner : List Char) :
    Yields (fun _ => True) (fillHole src hooks inner) := by
  unfold Eval.fillHole
  split
  · exact .fail _
  · exact Yields.map (Q := fun _ => True) (.surroundings fun _ => .pure trivial) fun _ _ => trivial
  · exact (hooked.splice _).map fun _ _ => trivial
  · exact .fail _

/-- The pieces of a string, from left to right, each in the scope its predecessors have left. -/
theorem yields_joinPieces (hooked : HooksYield hooks) (whole : String) (pieces : List Piece) :
    Yields (fun _ => True) (joinPieces src hooks whole pieces) := by
  induction pieces with
  | nil => exact .pure trivial
  | cons piece pieces ih =>
    cases piece with
    | text cs => exact ih.map fun _ _ => trivial
    | hole inner => exact (yields_fillHole hooked inner).bind fun _ _ => ih.map fun _ _ => trivial
    | unclosed => exact .fail _

/-- The steps of a pipeline. Each step is bound under its name, and the output that is handed on to the next
one is a value. -/
theorem yields_runSteps {steps : List (String × Eval Value)}
    (h : ∀ name act, steps.lookup name = some act → Yields Value.IsResult act)
    {output : Value} (houtput : output.Untupled) (names : List String) :
    Yields Value.Untupled (runSteps steps output names) := by
  induction names generalizing output with
  | nil => exact .pure houtput
  | cons name names ih =>
    unfold Eval.runSteps
    cases found : steps.lookup name with
    | none => exact ih houtput
    | some act =>
      refine (h name act found).bind fun v hv => ?_
      refine Yields.bind (.ofExcept fun w passed => hv.stepResult passed) fun w hw => ?_
      exact (Yields.set hw name).bind fun _ _ => ih hw

/-- A pipeline, in whichever order its arrows ask for. -/
theorem yields_runPipeline {steps : List (String × Eval Value)}
    (h : ∀ name act, steps.lookup name = some act → Yields Value.IsResult act)
    (arrows : List (String × String)) : Yields Value.Untupled (runPipeline steps arrows) := by
  unfold Eval.runPipeline
  split
  · exact .fail _
  · exact (yields_runSteps h (Value.untupled_of_isScalar rfl) _).aside

/-- The step of the induction, which needs the two levels below the node: a pipeline runs the values of its
assignments and not the assignments. -/
theorem givesResult_of_children (functions : src.engine.functions.Untupled)
    (hooked : HooksYield hooks) (n : Node) (ih : ∀ m ∈ n.children, GivesResult src hooks m)
    (ih' : ∀ m ∈ n.children, ∀ k ∈ m.children, GivesResult src hooks k) :
    GivesResult src hooks n := by
  have of_untupled {x : Eval Value} (h : Yields Value.Untupled x) : Yields Value.IsResult x :=
    h.mono fun _ => .inl
  have of_table {x : Eval (Table Value)} (h : Yields Table.Untupled x) :
      Yields Value.IsResult (x >>= fun vars => Pure.pure (Value.map vars)) :=
    h.map fun _ hvars => .inl (Value.untupled_map.2 hvars)
  have scalar {v : Value} (h : v.isScalar = true) : Yields Value.IsResult (Pure.pure v) :=
    .pure (.inl (Value.untupled_of_isScalar h))
  unfold GivesResult
  cases n with
  | assign target value style =>
    simp only [Node.evalWith]
    refine (Yields.attempt (ih value List.mem_cons_self)).bind fun r hr => ?_
    exact of_table (yields_bindOutcome target.name value hr)
  | assignEach pairs =>
    simp only [Node.evalWith]
    exact of_table (yields_evalPairs fun p hp => ih p.2 (List.mem_map_of_mem hp))
  | destructure targets source =>
    simp only [Node.evalWith]
    refine (Yields.attempt (ih source List.mem_cons_self)).bind fun r hr => ?_
    exact of_table (yields_bindElements source hr 0 targets)
  | block kind label body pos =>
    simp only [Node.evalWith]
    refine (yields_evalStatements ih).inChild.bind fun props hprops => ?_
    exact of_untupled (yields_registerBlock kind _ hprops)
  | container kind body pos =>
    simp only [Node.evalWith]
    refine (yields_evalStatements ih).inChild.bind fun vars hvars => ?_
    have hmap := Value.untupled_map.2 hvars
    exact (Yields.set hmap kind).map fun _ _ => .inl hmap
  | arrow relation source target body pos =>
    simp only [Node.evalWith]
    refine (yields_evalStatements ih).inChild.bind fun props hprops => ?_
    exact of_untupled (yields_registerArrow _ source target hprops)
  | map entries =>
    simp only [Node.evalWith]
    exact of_table (yields_evalStatements ih).inChild
  | combinedMap items =>
    simp only [Node.evalWith]
    refine of_table (Yields.inChild (Q := fun _ => True) ?_)
    exact (yields_evalSelected _ ih).bind fun _ _ => yields_evalSelected _ ih
  | list items =>
    simp only [Node.evalWith]
    exact (yields_evalValues ih).map fun _ hvalues => .inl (Value.untupled_list.2 hvalues)
  | literal value =>
    simp only [Node.evalWith]
    cases value with
    | str s quote tag =>
      refine (yields_joinPieces hooked s _).map fun text _ => .inl ?_
      exact Value.untupled_of_isScalar rfl
    | int i => exact scalar rfl
    | float x => exact scalar rfl
    | bool b => exact scalar rfl
    | null => exact scalar rfl
  | ident name =>
    simp only [Node.evalWith]
    split
    · exact scalar rfl
    · exact .own fun scope hscope => .pure (.inl (hscope.lookup name))
  | member left name =>
    simp only [Node.evalWith]
    refine GivesResult.operand (ih left List.mem_cons_self) fun target htarget => ?_
    refine .surroundings fun w => .own fun scope hscope => ?_
    exact of_untupled (.ofExcept fun v given => htarget.member hscope given)
  | binary op left right =>
    simp only [Node.evalWith]
    refine GivesResult.operand (ih left List.mem_cons_self) fun l hl => ?_
    split
    · exact of_untupled (.pure hl)
    · refine GivesResult.operand (ih right (by simp [Node.children])) fun r hr => ?_
      exact of_untupled (.ofExcept fun v given => hl.binary hr given)
  | unary op operand =>
    simp only [Node.evalWith]
    refine GivesResult.operand (ih operand List.mem_cons_self) fun v _ => ?_
    exact of_untupled (.ofExcept fun w given => Value.untupled_unary given)
  | ternary condition yes no =>
    simp only [Node.evalWith]
    -- The condition is not taken apart, since the tuple of a call may be one. It is not passed on.
    refine Yields.bind (ih condition List.mem_cons_self) fun c _ => ?_
    refine Yields.bind (Q := fun _ => True) (.ofExcept fun _ _ => trivial) fun taken _ => ?_
    cases taken with
    | true => exact of_untupled (GivesResult.lastOperand (ih yes (by simp [Node.children])))
    | false => exact of_untupled (GivesResult.lastOperand (ih no (by simp [Node.children])))
  | group inner =>
    simp only [Node.evalWith]
    exact ih inner List.mem_cons_self
  | call name args pos =>
    simp only [Node.evalWith]
    refine (yields_evalValues ih).bind fun values hvalues => ?_
    refine Yields.bind (.ofExcept fun f found => functions.function found) fun f hf => ?_
    exact Yields.call hf hvalues
  | envRef name default =>
    simp only [Node.evalWith]
    refine Yields.map (Q := fun _ => True) (.surroundings fun _ => .pure trivial) fun _ _ => .inl ?_
    exact Value.untupled_of_isScalar rfl
  | inclusion target pos =>
    simp only [Node.evalWith]
    refine GivesResult.operand (ih target List.mem_cons_self) fun v _ => ?_
    split
    · exact of_untupled (hooked.inclusion _)
    · exact .fail _
  | comment text =>
    simp only [Node.evalWith]
    exact scalar rfl
  | control branches =>
    simp only [Node.evalWith]
    have hmem : ∀ b ∈ branches, ∀ m ∈ b.condition.toList ++ b.body,
        m ∈ (Node.control branches).children := fun b hb m hm => List.mem_flatMap.2 ⟨b, hb, hm⟩
    refine of_untupled (yields_evalBranches (fun b hb m hm => ?_) fun b hb m hm => ?_)
    · exact ih m (hmem b hb m (List.mem_append_left _ (Option.mem_toList.2 hm)))
    · exact ih m (hmem b hb m (List.mem_append_right _ hm))
  | pipeline body pos =>
    simp only [Node.evalWith]
    refine of_untupled (yields_runPipeline (fun name act found => ?_) _)
    -- A step is the value of an assignment in the body, and so two levels below the pipeline.
    rw [Inherited.lookup_stepsOf, Option.map_eq_some_iff] at found
    obtain ⟨m, hm, rfl⟩ := found
    obtain ⟨k, hk, hchild⟩ := mem_of_lookup_stepNodes hm
    exact ih' k hk m hchild
  | exec cmd args dir pos =>
    simp only [Node.evalWith]
    split
    · refine GivesResult.operand (ih cmd List.mem_cons_self) fun c _ => ?_
      refine Yields.bind (Q := fun _ => True) (.ofExcept fun _ _ => trivial) fun program _ => ?_
      refine (yields_evalOption fun m hm => ?_).bind fun a _ => ?_
      · exact ih m (by simp [Node.children, Option.mem_def.1 hm])
      · refine (yields_evalOption fun m hm => ?_).bind fun d _ => ?_
        · exact ih m (by simp [Node.children, Option.mem_def.1 hm])
        · refine Yields.bind (Q := fun _ => True) (.ofExcept fun _ _ => trivial) fun directory _ => ?_
          exact Yields.runCommand src _
    · exact .fail _
  | extract source index =>
    simp only [Node.evalWith]
    refine Yields.bind (ih source List.mem_cons_self) fun v hv => ?_
    exact of_untupled (.ofExcept fun w taken => hv.element taken)

/-- **A node gives a result,** in scopes without tuples. The induction speaks of a node and of those
directly below it, since a pipeline evaluates the values of its assignments. -/
theorem givesResult (functions : src.engine.functions.Untupled) (hooked : HooksYield hooks) (n : Node) :
    GivesResult src hooks n := by
  have both : GivesResult src hooks n ∧ ∀ m ∈ n.children, GivesResult src hooks m := by
    induction n using Node.induction_children with
    | step n ih =>
      have below : ∀ m ∈ n.children, GivesResult src hooks m := fun m hm => (ih m hm).1
      exact ⟨givesResult_of_children functions hooked n below fun m hm => (ih m hm).2, below⟩
  exact both.1

end Trees

/-! ## 4. Strings and inclusions -/

section Leaving

variable {Q : Value → Prop} {s t : State}

/-- What the contract says of the scope that is left, for an evaluation that has run. -/
theorem Yields.left {α : Type} {Q : α → Prop} {x : Eval α} (h : Yields Q x) {r : Except Fault α}
    (ran : x s = (r, t)) (hs : s.scope.Untupled) : t.scope.Untupled := by
  have left := (h s hs).1
  rwa [ran] at left

/-- What the contract says of the value that is given. -/
theorem Yields.given {α : Type} {Q : α → Prop} {x : Eval α} (h : Yields Q x) {a : α}
    (ran : x s = (.ok a, t)) (hs : s.scope.Untupled) : Q a :=
  (h s hs).2 a (congrArg Prod.fst ran)

/-- An inclusion gives the variables of its document. -/
theorem yields_includeWith {run : Source → List Node → Eval Unit} {src : Source}
    (h : ∀ inner nodes, inner.engine = src.engine → Yields (fun _ => True) (run inner nodes))
    (target : String) : Yields Value.Untupled (includeWith run src target) := by
  intro s hs
  have outcome := included run src target s
  generalize (includeWith run src target s).1 = r at outcome
  generalize (includeWith run src target s).2 = s' at outcome
  have again (place : Location) (nodes : List Node) :
      Yields Table.Untupled (inChild (run (src.nested place.key place.key) nodes)) :=
    (h (src.nested place.key place.key) nodes rfl).inChild
  have anew (place : Location) (nodes : List Node) :
      Yields Table.Untupled (inFresh (run (src.nested place.key place.key) nodes)) :=
    (h (src.nested place.key place.key) nodes rfl).within fun _ _ => .root .nil
  -- The scope is what the document was run from, or has the variables of the document as well.
  cases outcome with
  | lost | circular | unfetched | unread => exact ⟨hs, nofun⟩
  | againFailed found closed cached ran => exact ⟨(again _ _).left ran hs, nofun⟩
  | anewFailed found closed missing fetched read ran => exact ⟨(anew _ _).left ran hs, nofun⟩
  | again found closed cached ran =>
    have hvars := (again _ _).given ran hs
    refine ⟨((again _ _).left ran hs).extend hvars, fun v given => ?_⟩
    cases given
    exact Value.untupled_map.2 hvars
  | anew found closed missing fetched read ran =>
    have hvars := (anew _ _).given ran hs
    refine ⟨((anew _ _).left ran hs).extend hvars, fun v given => ?_⟩
    cases given
    exact Value.untupled_map.2 hvars

/-- The hooks of evaluation at any depth of expressions in strings. The induction is on the depth; the
outermost depth has only inclusion to rely on. -/
theorem hooksYield_atDepth {src : Source} (functions : src.engine.functions.Untupled)
    {inclusion : String → Eval Value} (h : ∀ target, Yields Value.Untupled (inclusion target))
    (depth : Nat) : HooksYield (Hooks.atDepth inclusion src depth) := by
  induction depth with
  | zero => exact ⟨fun _ => .fail _, h⟩
  | succ depth ih => exact ⟨fun m => (givesResult functions ih m).lastOperand, h⟩

/-- A document leaves untupled scopes if those do that it includes. -/
theorem yields_runWithin {src : Source} (functions : src.engine.functions.Untupled) {left : Nat}
    (h : ∀ target, Yields Value.Untupled (src.includeWithin left target)) (nodes : List Node) :
    Yields (fun _ => True) (Source.runWithin left src nodes) :=
  yields_evalStatements fun m _ => givesResult functions (hooksYield_atDepth functions h _) m

/-- Inclusion to any depth, by induction on that depth. A document is run in an untupled scope, and what it
gives is the table of the names it has bound. -/
theorem yields_includeWithin (n : Nat) {src : Source} (functions : src.engine.functions.Untupled)
    (target : String) : Yields Value.Untupled (src.includeWithin n target) := by
  induction n generalizing src target with
  | zero => exact .fail _
  | succ n ih =>
    rw [Source.includeWithin_succ]
    refine yields_includeWith (fun inner nodes same => ?_) target
    have functions : inner.engine.functions.Untupled := same ▸ functions
    exact yields_runWithin functions (ih functions) nodes

end Leaving

/-! ## 5. What runs before a part -/

section Before

variable {src : Source} {hooks : Hooks} {s t : State}

variable (functions : src.engine.functions.Untupled) (hooked : HooksYield hooks)

include functions hooked

/-- A statement that has come to its end leaves an untupled scope. -/
theorem Finishes.untupled {n : Node} (h : Finishes src hooks n s t) (hs : s.scope.Untupled) :
    t.scope.Untupled := by
  obtain ⟨v, ran⟩ := h
  exact (givesResult functions hooked n).left ran hs

/-- So does one of several assignments. -/
theorem Assigns.untupled {pair : Target × Node} (h : Assigns src hooks pair s t)
    (hs : s.scope.Untupled) : t.scope.Untupled := by
  obtain ⟨outcome, u, vars, ran, bound⟩ := h
  have result := (givesResult functions hooked pair.2).attempt
  exact (yields_bindOutcome pair.1.name pair.2 (result.given ran hs)).left bound (result.left ran hs)

omit functions in
/-- So does a piece of a string, whether it was text or an expression. -/
theorem Fills.untupled {piece : Piece} (h : Fills src hooks piece s t) (hs : s.scope.Untupled) :
    t.scope.Untupled := by
  cases piece with
  | text cs =>
    cases h
    exact hs
  | hole inner =>
    obtain ⟨text, filled⟩ := h
    exact (yields_fillHole hooked inner).left filled hs
  | unclosed => exact h.elim

/-- So does a step of a pipeline that has been done, since what is bound to its name is not the tuple of its
call but the value in it. -/
theorem StepDone.untupled {steps : List (String × Node)} {name : String}
    (h : StepDone src hooks steps name s t) (hs : s.scope.Untupled) : t.scope.Untupled := by
  unfold StepDone at h
  cases found : steps.lookup name with
  | none =>
    rw [found] at h
    cases h
    exact hs
  | some n =>
    rw [found] at h
    obtain ⟨v, w, u, ran, passed, rfl⟩ := h
    have result := givesResult functions hooked n
    exact (result.left ran hs).set ((result.given ran hs).stepResult passed) name

/-- **What a node runs begins in untupled scopes** if the node does. Whatever has run before it in the node
has given no tuple, so none has been bound. -/
theorem Runs.untupled {n : Node} {here : Bool} {task : Task} (runs : Runs src hooks n s here task t)
    (hs : s.scope.Untupled) : t.scope.Untupled := by
  refine runs.keeps (I := fun s => s.scope.Untupled) (fun _ hs => hs.child) ?_ ?_ ?_ ?_ hs
  · exact fun _ _ _ => Finishes.untupled functions hooked
  · exact fun _ _ _ => Assigns.untupled functions hooked
  · exact fun _ _ _ => Fills.untupled hooked
  · exact fun _ _ _ _ => StepDone.untupled functions hooked

omit functions hooked in
/-- A document that an inclusion enters begins in an untupled scope. -/
theorem Enters.untupled {inner : Source} {target : String} {nodes : List Node}
    (h : Enters src target s inner nodes t) (hs : s.scope.Untupled) : t.scope.Untupled := by
  cases h with
  | again => exact hs.child
  | anew => exact .root .nil

end Before

end Eval

/-! ## 6. Activities -/

namespace Activity

open Eval

variable {a b : Activity}

/-- There is no tuple in the scope that an activity begins in, nor in the one that it leaves, nor in its
value, nor in what a pipeline keeps of it if it is a step. -/
structure Untupled (a : Activity) : Prop where
  start : a.state.scope.Untupled
  left : a.ending.2.scope.Untupled
  value : ∀ r v, a.ending.1 = .ok r → r.unwrapCall a.node = .ok v → v.Untupled
  step : ∀ r name v, a.ending.1 = .ok r → stepResult name r = .ok v → v.Untupled

/-- The contract holds where an activity leaves the tree. -/
theorem hooksYield (functions : a.src.engine.functions.Untupled) : HooksYield a.hooks :=
  hooksYield_atDepth functions (yields_includeWithin a.documents functions) a.strings

/-- An activity runs in untupled scopes if it begins in them and its builtins are untupled. -/
theorem untupled_of_start (functions : a.src.engine.functions.Untupled)
    (start : a.state.scope.Untupled) : a.Untupled := by
  obtain ⟨left, given⟩ := givesResult functions (hooksYield functions) a.node a.state start
  refine ⟨start, left, fun r v result taken => ?_, fun r name v result passed => ?_⟩
  · exact (given r result).unwrapCall taken
  · exact (given r result).stepResult passed

/-- Parts have the functions of the activity that they are a part of. -/
theorem Part.engine {here statement : Bool} (part : Part a here statement b) :
    b.src.engine = a.src.engine := by
  cases part with
  | operand | statement | spliced => rfl
  | included _ _ enters => exact enters.engine

/-- **A part begins in an untupled scope** if what it is a part of does. A statement of an included document
begins in a scope inside, or in one with nothing but what the statements before it have bound. -/
theorem Part.untupled {here statement : Bool} (part : Part a here statement b)
    (functions : a.src.engine.functions.Untupled) (start : a.state.scope.Untupled) :
    b.state.scope.Untupled := by
  have hooked : HooksYield a.hooks := hooksYield functions
  cases part with
  | operand runs | statement runs | spliced _ runs => exact Runs.untupled functions hooked runs start
  | @included left _ inner nodes _ _ _ _ _ runs enters turn =>
    have functions' : inner.engine.functions.Untupled := enters.engine ▸ functions
    have hooked' : HooksYield (Hooks.atDepth (inner.includeWithin left) inner (longestTextAll nodes)) :=
      hooksYield_atDepth functions' (yields_includeWithin left functions') _
    refine turn.keeps (I := fun s => s.scope.Untupled) (fun _ _ _ => Finishes.untupled functions' hooked') ?_
    exact enters.untupled (Runs.untupled functions hooked runs start)

/-- What is within an activity has no tuples if the activity begins without them. -/
theorem Within.untupled (within : Within a b) (functions : a.src.engine.functions.Untupled)
    (start : a.state.scope.Untupled) : b.Untupled := by
  -- The induction is on the way down to the part, and the contract is needed only at its end.
  have begins : b.src.engine.functions.Untupled ∧ b.state.scope.Untupled := by
    induction within with
    | refl => exact ⟨functions, start⟩
    | tail _ part ih =>
      obtain ⟨functions', start'⟩ := ih
      obtain ⟨here, statement, part⟩ := part
      exact ⟨part.engine ▸ functions', part.untupled functions' start'⟩
  exact untupled_of_start begins.1 begins.2

section

variable {src : Source} (functions : src.engine.functions.Untupled) {s : State}

include functions

/-- The statements of a document have no tuples if the document begins without them. -/
theorem OfDocument.untupled {nodes : List Node} (ofDocument : OfDocument src nodes s a)
    (hs : s.scope.Untupled) : a.src.engine.functions.Untupled ∧ a.state.scope.Untupled := by
  cases ofDocument with
  | intro turn =>
    have hooked : HooksYield (src.hooks s.world (longestTextAll nodes)) :=
      hooksYield_atDepth functions (yields_includeWithin _ functions) _
    refine ⟨functions, ?_⟩
    exact turn.keeps (I := fun s => s.scope.Untupled) (fun _ _ _ => Finishes.untupled functions hooked) hs

/-- A whole document, evaluated as its statements are. -/
theorem yields_run (nodes : List Node) : Yields (fun _ => True) (src.run nodes) := by
  intro s hs
  rw [Source.run_apply]
  exact yields_runWithin functions (yields_includeWithin _ functions) nodes s hs

/-- What an expression gives to its caller has been taken apart as well. -/
theorem yields_evalValue (n : Node) : Yields Value.Untupled (n.evalValue src) := by
  have result : Yields Value.IsResult (n.eval src) := by
    intro s hs
    rw [← ending_whole]
    exact givesResult functions (hooksYield functions) n s hs
  exact result.bind fun v hv => .ofExcept fun w taken => hv.unwrapCall taken

end

/-- **The tuples of calls do not escape.** If no registered function gives a tuple that it was not given,
which is so for the functions of a new engine, then whatever document is run, or expression evaluated, in
an untupled scope: there is no tuple in any scope on the way, in what is left in the end, or in any
value. -/
theorem no_tuple_escapes :
    Registry.Untupled .builtins ∧
      ∀ src : Source, src.engine.functions.Untupled → ∀ s : State, s.scope.Untupled →
        (∀ nodes, (∀ a b, OfDocument src nodes s a → Within a b → b.Untupled) ∧
          (src.run nodes s).2.scope.Untupled) ∧
        ∀ n : Node, (∀ b, Within (whole src n s) b → b.Untupled) ∧
          (n.evalValue src s).2.scope.Untupled ∧
          ∀ v, (n.evalValue src s).1 = .ok v → v.Untupled := by
  refine ⟨Registry.untupled_builtins, fun src functions s hs => ⟨fun nodes => ⟨?_, ?_⟩, fun n => ⟨?_, ?_⟩⟩⟩
  · intro a b ofDocument within
    obtain ⟨functions', start⟩ := ofDocument.untupled functions hs
    exact within.untupled functions' start
  · exact (yields_run functions nodes s hs).1
  · exact fun b within => within.untupled functions hs
  · exact yields_evalValue functions n s hs

/-- A call of a builtin. The node gives a tuple, but neither its value nor what is bound to a name is
one. -/
theorem no_tuple_escapes_isNull :
    let src : Source := ⟨⟨.default, .builtins, fun _ _ => .error "no commands"⟩, "d", "/", []⟩
    let s : State := ⟨.root [], ⟨⟨⟨[], []⟩, "/", [], []⟩, .fresh, [], []⟩⟩
    let n : Node := .call "isNull" [.literal .null] ⟨1, 5⟩
    (n.eval src s).1 = .ok (.tuple [.bool true, .null]) ∧
      (n.evalValue src s).1 = .ok (.bool true) ∧ (Value.bool true).Untupled ∧
      (src.run [.assign ⟨"x", ⟨1, 1⟩⟩ n .equals] s).2.scope = .root [("x", .bool true)] ∧
      (Scope.root [("x", .bool true)]).Untupled := by
  intro src s n
  obtain ⟨builtins, untupled⟩ := no_tuple_escapes
  obtain ⟨documents, expressions⟩ := untupled src builtins s (.root .nil)
  have value : (n.evalValue src s).1 = .ok (.bool true) := rfl
  have scope : (src.run [.assign ⟨"x", ⟨1, 1⟩⟩ n .equals] s).2.scope = .root [("x", .bool true)] := rfl
  have left := (documents [.assign ⟨"x", ⟨1, 1⟩⟩ n .equals]).2
  rw [scope] at left
  exact ⟨rfl, value, (expressions n).2.2 _ value, scope, left⟩

end Activity

end BlockConfig
