import BlockConfig.Engine
import BlockConfig.Proofs.Eval.Congruence

/-!
Evaluation that keeps to itself.

A tree is *secluded* if it has no inclusions and no commands, not even in an expression inside a
string, and calls pure functions only (`Node.Secluded`). Evaluating it leaves the world as it is.

One thing it can still do is to break off, because a function that it calls does. To say so without
reading it off the result, functions can be *watched*: a watched function does what it did, and leaves
a mark in the memory if it breaks off. Evaluating a secluded tree with watched functions ends as it
does without, and the mark is there exactly if it ended by breaking off (`Eval.Watched`). That is a
congruence, so it holds of all secluded trees, and by the depth of the strings, of all that is found
in them.
-/

set_option autoImplicit false

namespace BlockConfig

/-! ## 1. Secluded trees -/

/-- A function whose reply depends on its arguments alone, and which changes nothing. -/
def Callable.IsPure (f : Callable) : Prop :=
  ∃ reply : List Value → Reply, ∀ args m, f args m = (reply args, m)

/-- The functions of a new engine are pure. -/
theorem Callable.isPure_of_builtins {name : String} {f : Callable}
    (h : Registry.builtins.lookup name = some f) : f.IsPure := by
  have entry := (Table.mem_union (Table.mem_of_find? h)).resolve_left List.not_mem_nil
  obtain ⟨⟨_, reply⟩, -, heq⟩ := List.mem_map.1 entry
  obtain ⟨-, rfl⟩ := Prod.mk.inj heq
  exact ⟨reply, fun _ _ => rfl⟩

/-- A tree without inclusions and commands that calls pure functions only, expressions inside of
strings included. -/
inductive Node.Secluded (functions : Registry) : Node → Prop
  | intro {n : Node} (inclusion : ∀ target pos, n ≠ .inclusion target pos)
      (exec : ∀ cmd args dir pos, n ≠ .exec cmd args dir pos)
      (calls : ∀ name args pos, n = .call name args pos →
        ∀ f, functions.lookup name = some f → Callable.IsPure f)
      (below : ∀ m ∈ n.children, Node.Secluded functions m)
      (spliced : ∀ m, n.Splices m → Node.Secluded functions m) : Node.Secluded functions n

/-- A literal that is no string. -/
theorem Node.secluded_literal (functions : Registry) {value : Literal}
    (h : ∀ s quote tag, value ≠ .str s quote tag) : (Node.literal value).Secluded functions := by
  refine .intro nofun nofun nofun (fun m hmem => absurd hmem List.not_mem_nil) ?_
  rintro m ⟨s, quote, tag, -, -, hn, -⟩
  exact absurd (Node.literal.inj hn) (h s quote tag)

/-! ## 2. Watched functions -/

/-- A memory with a mark: one more counter. -/
def Memory.mark (m : Memory) : Memory :=
  { m with counters := m.counters ++ [0] }

theorem Memory.mark_ne (m : Memory) : m.mark ≠ m := by
  intro h
  have := congrArg (fun m => m.counters.length) h
  simp [mark] at this

/-- A function that leaves a mark if it breaks off. -/
def Callable.watched (f : Callable) : Callable := fun args m =>
  match f args m with
  | (.abort message, m) => (.abort message, m.mark)
  | answer => answer

/-- An engine with watched functions. -/
def Engine.watched (e : Engine) : Engine :=
  { e with functions := e.functions.map fun entry => (entry.1, Callable.watched entry.2) }

/-- A document under evaluation by an engine with watched functions. -/
def Source.watched (src : Source) : Source :=
  { src with engine := src.engine.watched }

/-- With watched functions the same names are found, under each of them the watched function. -/
theorem Engine.lookup_watched (e : Engine) (name : String) :
    e.watched.functions.lookup name = (e.functions.lookup name).map Callable.watched := by
  have find : ∀ functions : Registry, ∀ key,
      Table.find? (functions.map fun entry => (entry.1, Callable.watched entry.2)) key =
        (Table.find? functions key).map Callable.watched := by
    intro functions key
    induction functions with
    | nil => rfl
    | cons entry functions ih =>
      rw [List.map_cons, Table.find?, Table.find?, ih]
      split <;> rfl
  exact find e.functions _

theorem Source.alike_watched (src : Source) : src.Alike src.watched :=
  ⟨rfl, rfl, rfl⟩

namespace Eval

variable {α β : Type}

/-- What watched functions make of the end of an evaluation: there is a mark if it broke off. -/
def marked : Except Fault α × State → Except Fault α × State
  | (.error (.abort message), s) =>
    (.error (.abort message), { s with world := { s.world with memory := s.world.memory.mark } })
  | ending => ending

/-- Two evaluations, one of them with watched functions, and neither changes the world but for the
mark. -/
def Watched (x y : Eval α) : Prop :=
  ∀ s, (x s).2.world = s.world ∧ y s = marked (x s)

/-- One evaluation after another. -/
theorem Watched.bind {x y : Eval α} {f g : α → Eval β} (h : Watched x y)
    (hf : ∀ a, Watched (f a) (g a)) : Watched (x >>= f) (y >>= g) := by
  intro s
  obtain ⟨hworld, hy⟩ := h s
  rw [bind_apply, bind_apply, hy]
  generalize x s = ending at hworld
  rcases ending with ⟨(e | message) | a, s'⟩
  · exact ⟨hworld, rfl⟩
  · exact ⟨hworld, rfl⟩
  · obtain ⟨hworld', hg⟩ := hf a s'
    exact ⟨hworld'.trans hworld, hg⟩

theorem watched_scope : Watched scope scope :=
  fun _ => ⟨rfl, rfl⟩

theorem watched_world : Watched world world :=
  fun _ => ⟨rfl, rfl⟩

theorem Watched.attempt {x y : Eval α} (h : Watched x y) : Watched (attempt x) (attempt y) := by
  intro s
  obtain ⟨hworld, hy⟩ := h s
  unfold Eval.attempt
  rw [hy]
  generalize x s = ending at hworld
  rcases ending with ⟨(e | message) | a, s'⟩ <;> exact ⟨hworld, rfl⟩

theorem Watched.locating (file : String) (pos : Option Position) {x y : Eval α}
    (h : Watched x y) : Watched (locating file pos x) (locating file pos y) := by
  intro s
  obtain ⟨hworld, hy⟩ := h s
  unfold Eval.locating
  rw [hy]
  generalize x s = ending at hworld
  cases pos <;> rcases ending with ⟨(e | message) | a, s'⟩ <;> exact ⟨hworld, rfl⟩

theorem Watched.inChild {x y : Eval Unit} (h : Watched x y) : Watched (inChild x) (inChild y) := by
  intro s
  obtain ⟨hworld, hy⟩ := h { s with scope := s.scope.child }
  unfold Eval.inChild Eval.within
  rw [hy]
  generalize x { s with scope := s.scope.child } = ending at hworld
  rcases ending with ⟨(e | message) | a, s'⟩ <;> exact ⟨hworld, rfl⟩

/-- What is evaluated in a scope inside, which is given up afterwards, is watched there as anywhere else,
since world and mark outlast the scope. -/
theorem Watched.aside {x y : Eval α} (h : Watched x y) :
    Watched (fun s => match x { s with scope := s.scope.child } with
        | (r, s') => (r, { s' with scope := s.scope }))
      (fun s => match y { s with scope := s.scope.child } with
        | (r, s') => (r, { s' with scope := s.scope })) := by
  intro s
  obtain ⟨hworld, hy⟩ := h { s with scope := s.scope.child }
  dsimp only
  rw [hy]
  generalize x { s with scope := s.scope.child } = ending at hworld
  rcases ending with ⟨(e | message) | a, s'⟩ <;> exact ⟨hworld, rfl⟩

/-- **Watching is kept by everything evaluation is put together from.** The mark is left where an evaluation
breaks off, and from there on nothing is evaluated any more, so it is not lost. -/
theorem congruence_watched : Congruence Watched where
  pure _ _ := ⟨rfl, rfl⟩
  fail _ _ := ⟨rfl, rfl⟩
  own h := watched_scope.bind fun a => h a a rfl
  host h := watched_world.bind fun w => h w.host
  set _ _ _ := ⟨rfl, rfl⟩
  bind := Watched.bind
  attempt := Watched.attempt
  locating file pos _ _ h := h.locating file pos
  inChild := Watched.inChild
  aside := Watched.aside

/-- A call of a pure function. -/
theorem watched_call {f : Callable} (hf : Callable.IsPure f) (args : List Value) :
    Watched (call f args) (call (Callable.watched f) args) := by
  obtain ⟨reply, hreply⟩ := hf
  intro s
  unfold Eval.call Callable.watched
  rw [hreply]
  cases reply args with
  | value v => exact ⟨rfl, rfl⟩
  | error message => exact ⟨rfl, rfl⟩
  | abort message => exact ⟨rfl, rfl⟩

theorem function_watched (src : Source) (name : String) :
    function src.watched name = (function src name).map Callable.watched := by
  unfold Eval.function
  rw [Source.watched, Engine.lookup_watched]
  cases src.engine.functions.lookup name <;> rfl

/-- Finding a function and calling it, if it is pure. -/
theorem watched_function {src : Source} {name : String}
    (pure : ∀ f, src.engine.functions.lookup name = some f → Callable.IsPure f)
    (args : List Value) :
    Watched (ofExcept (function src name) >>= fun f => call f args)
      (ofExcept (function src.watched name) >>= fun f => call f args) := by
  rw [function_watched]
  unfold Eval.function
  cases hf : src.engine.functions.lookup name with
  | none => exact congruence_watched.fail _
  | some f => exact watched_call (pure f hf) args

/-! ## 3. Trees, to any depth of strings -/

/-- What is found in strings is evaluated alike with watched functions. -/
def WatchedHooks (functions : Registry) (hooks hooks' : Hooks) : Prop :=
  ∀ m, Node.Secluded functions m → Watched (hooks.splice m) (hooks'.splice m)

/-- At each node of a secluded tree the watched functions do what the others did but for the mark. There are
no inclusions and commands to compare, and what its strings hold agrees by hypothesis. -/
theorem agreesHere_of_secluded {src : Source} {hooks hooks' : Hooks} {n : Node}
    (secluded : n.Secluded src.engine.functions)
    (spliced : WatchedHooks src.engine.functions hooks hooks') :
    n.Everywhere (AgreesHere Watched src src.watched hooks hooks') := by
  induction secluded with
  | intro inclusion exec calls _ found ih _ =>
    refine .intro ⟨fun name _ => ?_, fun m hm => spliced m (found m hm), ?_, ?_, ?_⟩ ih
    · exact congruence_watched.map watched_scope _
    · intro name args pos heq values
      exact watched_function (calls name args pos heq) values
    · exact fun target pos heq => absurd heq (inclusion target pos)
    · exact fun cmd args dir pos heq => absurd heq (exec cmd args dir pos)

/-- What is found in the strings of a secluded tree is evaluated alike with watched functions, by induction
on the depth: at depth zero it fails, and one deeper the tree agrees at each node. -/
theorem watchedHooks_atDepth (src : Source) (inclusion inclusion' : String → Eval Value)
    (depth : Nat) :
    WatchedHooks src.engine.functions (Hooks.atDepth inclusion src depth)
      (Hooks.atDepth inclusion' src.watched depth) := by
  induction depth with
  | zero => exact fun m _ => congruence_watched.fail _
  | succ depth ih =>
    intro m secluded
    have hm := congruence_watched.evalWith src.alike_watched (agreesHere_of_secluded secluded ih)
    exact congruence_watched.bind hm fun v => congruence_watched.ofExcept _

/-- **Evaluating a secluded node** changes nothing in the world, and with watched functions it leaves the
mark exactly if it breaks off. That holds at each node, and a congruence takes it to the whole. -/
theorem watched_evalValue {src : Source} {n : Node} (secluded : n.Secluded src.engine.functions) :
    Watched (n.evalValue src) (n.evalValue src.watched) := by
  unfold Node.evalValue Node.eval
  refine congruence_watched.bind (congruence_watched.bind watched_world fun w => ?_)
    fun v => congruence_watched.ofExcept _
  exact congruence_watched.evalWith src.alike_watched
    (agreesHere_of_secluded secluded (watchedHooks_atDepth src _ _ _))

/-- **Running the statements of a secluded document** changes nothing in the world, and with watched
functions it leaves the mark exactly if it breaks off. -/
theorem watched_run {src : Source} {nodes : List Node}
    (secluded : ∀ n ∈ nodes, n.Secluded src.engine.functions) :
    Watched (src.run nodes) (src.watched.run nodes) := by
  unfold Source.run
  refine congruence_watched.bind watched_world fun w => ?_
  refine congruence_watched.evalStatements src.alike_watched fun n hn => ?_
  exact congruence_watched.evalWith src.alike_watched
    (agreesHere_of_secluded (secluded n hn) (watchedHooks_atDepth src _ _ _))

end Eval

/-! ## 4. Expressions and documents on their own -/

namespace Engine

variable {e : Engine} {text : String}

/-- A function breaks off that is called when an expression is evaluated: if functions are watched,
this leaves a mark. -/
def CallBreaksOff (e : Engine) (text : String) (s : State) : Prop :=
  (e.watched.evalExpression text s).2.world.memory ≠ s.world.memory

/-- An expression that cannot be read or is secluded. -/
def SecludedExpression (e : Engine) (text : String) : Prop :=
  ∀ n, Node.parseExpression text "<expr>" = .ok n → n.Secluded e.functions

/-- A document that cannot be read or is secluded. -/
def SecludedDocument (e : Engine) (text : String) : Prop :=
  ∀ ns, Node.parse text "<input>" = .ok ns → ∀ n ∈ ns, n.Secluded e.functions

/-- An expression ends with a value, with an error of its reading or its evaluation, or by breaking
off. -/
theorem error_of_evalExpression {s : State} {error : RunError}
    (h : (e.evalExpression text s).1 = .error (.error error)) :
    (∃ fault, error = .parse fault) ∨ ∃ fault, error = .eval fault := by
  unfold evalExpression at h
  cases parsed : Node.parseExpression text "<expr>" with
  | error fault =>
    rw [parsed] at h
    cases h
    exact .inl ⟨fault, rfl⟩
  | ok n =>
    rw [parsed] at h
    dsimp only at h
    generalize n.evalValue (e.inline s.world.host) s = ending at h
    rcases ending with ⟨(fault | message) | v, s'⟩
    · cases h
      exact .inr ⟨fault, rfl⟩
    · cases h
    · cases h

/-- **A secluded expression leaves the world as it is,** and it breaks off exactly if a function does
that it calls. -/
theorem evalExpression_secluded (secluded : e.SecludedExpression text) (s : State) :
    (e.evalExpression text s).2.world = s.world ∧
      ((∃ message, (e.evalExpression text s).1 = .error (.abort message)) ↔
        e.CallBreaksOff text s) := by
  -- Without a mark the memory is what it was, and a mark is there if the evaluation broke off.
  unfold CallBreaksOff evalExpression
  cases parsed : Node.parseExpression text "<expr>" with
  | error fault => exact ⟨rfl, ⟨nofun, fun h => absurd rfl h⟩⟩
  | ok n =>
    have here : n.Secluded (e.inline s.world.host).engine.functions := secluded n parsed
    obtain ⟨hworld, hmarked⟩ := Eval.watched_evalValue here s
    dsimp only
    rw [show e.watched.inline s.world.host = (e.inline s.world.host).watched from rfl, hmarked]
    generalize n.evalValue (e.inline s.world.host) s = ending at hworld
    rcases ending with ⟨(fault | message) | v, s'⟩
    · exact ⟨hworld, ⟨nofun, fun h => absurd (congrArg World.memory hworld) h⟩⟩
    · refine ⟨hworld, ⟨fun _ => ?_, fun _ => ⟨message, rfl⟩⟩⟩
      rw [← congrArg World.memory hworld]
      exact s'.world.memory.mark_ne
    · exact ⟨hworld, ⟨nofun, fun h => absurd (congrArg World.memory hworld) h⟩⟩

/-- **A secluded document leaves the world as it is.** What is done with its variables at the end does not
look at the world. -/
theorem evalDocument_secluded {src : Source} {nodes : List Node}
    (secluded : ∀ n ∈ nodes, n.Secluded src.engine.functions) (w : World) :
    (evalDocument src nodes w).2 = w := by
  obtain ⟨hworld, -⟩ := Eval.watched_run secluded ⟨.root [], w⟩
  rw [evalDocument_apply]
  generalize src.run nodes ⟨.root [], w⟩ = ending at hworld
  rcases ending with ⟨(fault | message) | _, s⟩ <;> exact hworld

end Engine

end BlockConfig
