import BlockConfig.Proofs.Inclusion.Outcome

/-!
Documents that need nothing from their callers.

A document from the cache is evaluated in a scope inside its caller's and may see the caller's names;
one that is included for the first time sees none. For a document that neither includes another
(`Node.Includes`) nor mentions a name that its caller has (`Node.Mentions`) this makes no difference,
nor does it what else is in the cache and what has happened before.

Two states are *beside* each other if one has further tables around its scope and they differ otherwise
in the cache and the trace only (`State.Beside`). Evaluations that go from states beside each other to
states beside each other, with the same results, are a congruence (`Eval.congruence_alongside`): a
scope's own table is read in many places, but the tables around it only at a name, and the cache only at
an inclusion.
-/

set_option autoImplicit false

namespace BlockConfig

/-! ## 1. What is in a tree -/

/-- A name occurs in a tree, or in an expression inside a string of it. -/
inductive Node.Mentions (name : String) : Node → Prop
  | here : Node.Mentions name (.ident name)
  | inside {n m : Node} (child : m ∈ n.children) (h : Node.Mentions name m) : Node.Mentions name n
  | spliced {n m : Node} (found : n.Splices m) (h : Node.Mentions name m) : Node.Mentions name n

/-- An inclusion occurs in a tree, or in an expression inside a string of it. -/
inductive Node.Includes : Node → Prop
  | here (target : Node) (pos : Position) : Node.Includes (.inclusion target pos)
  | inside {n m : Node} (child : m ∈ n.children) (h : Node.Includes m) : Node.Includes n
  | spliced {n m : Node} (found : n.Splices m) (h : Node.Includes m) : Node.Includes n

/-- A tree without inclusions that mentions no name of some tables. -/
structure Node.Closed (tables : List (Table Value)) (n : Node) : Prop where
  includes : ¬ n.Includes
  unbound : ∀ name, n.Mentions name → (tables.findSome? fun vars => Table.find? vars name) = none

namespace Node.Closed

variable {tables : List (Table Value)} {n m : Node}

/-- A tree is closed if its top is and everything in it. -/
theorem intro (inclusion : ∀ target pos, n ≠ .inclusion target pos)
    (ident : ∀ name, n = .ident name → (tables.findSome? fun vars => Table.find? vars name) = none)
    (child : ∀ m ∈ n.children, m.Closed tables) (spliced : ∀ m, n.Splices m → m.Closed tables) :
    n.Closed tables := by
  refine ⟨fun inc => ?_, fun name mentions => ?_⟩
  · cases inc with
    | here target pos => exact inclusion target pos rfl
    | inside hm inc => exact (child _ hm).includes inc
    | spliced hm inc => exact (spliced _ hm).includes inc
  · cases mentions with
    | here => exact ident name rfl
    | inside hm mentions => exact (child _ hm).unbound name mentions
    | spliced hm mentions => exact (spliced _ hm).unbound name mentions

/-- What is below a closed node is closed. -/
theorem child (h : n.Closed tables) (hm : m ∈ n.children) : m.Closed tables :=
  ⟨fun inc => h.includes (.inside hm inc), fun name hname => h.unbound name (.inside hm hname)⟩

/-- So is what is found in its strings. -/
theorem spliced (h : n.Closed tables) (hm : n.Splices m) : m.Closed tables :=
  ⟨fun inc => h.includes (.spliced hm inc), fun name hname => h.unbound name (.spliced hm hname)⟩

end Node.Closed

/-! ## 2. States beside each other -/

/-- A state with further tables around the scope of another; the cache and the trace aside, they are
the same. -/
structure State.Beside (tables : List (Table Value)) (s s' : State) : Prop where
  own : s.scope.own = s'.scope.own
  outer : s.scope.outer = s'.scope.outer ++ tables
  host : s.world.host = s'.world.host
  memory : s.world.memory = s'.world.memory

namespace Eval

variable {α β : Type} {tables : List (Table Value)}

/-- Evaluations with the same results in states beside each other, which leave such states. -/
def Alongside (tables : List (Table Value)) (x y : Eval α) : Prop :=
  ∀ s s', s.Beside tables s' → (x s).1 = (y s').1 ∧ (x s).2.Beside tables (y s').2

/-- A sequence runs alongside another if its parts do, since the first ones leave states beside each
other. -/
theorem Alongside.bind {x y : Eval α} {f g : α → Eval β} (h : Alongside tables x y)
    (hf : ∀ a, Alongside tables (f a) (g a)) : Alongside tables (x >>= f) (y >>= g) := by
  intro s s' beside
  obtain ⟨hr, left⟩ := h s s' beside
  rw [bind_apply, bind_apply]
  generalize x s = ending at hr left
  generalize y s' = ending' at hr left
  rcases ending with ⟨fault | a, t⟩ <;> rcases ending' with ⟨fault' | a', t'⟩ <;> cases hr
  · exact ⟨rfl, left⟩
  · exact hf a t t' left

/-- Reading the own table of the scope gives the same on both sides; it is in the tables around it that they
differ. -/
theorem Alongside.own {f g : Scope → Eval α}
    (h : ∀ a b : Scope, a.own = b.own → Alongside tables (f a) (g b)) :
    Alongside tables (scope >>= f) (scope >>= g) :=
  fun s s' beside => h s.scope s'.scope beside.own s s' beside

/-- The host is the same on both sides. -/
theorem Alongside.host {f g : Host → Eval α} (h : ∀ host, Alongside tables (f host) (g host)) :
    Alongside tables (world >>= fun w => f w.host) (world >>= fun w => g w.host) := by
  intro s s' beside
  show (f s.world.host s).1 = (g s'.world.host s').1 ∧
    State.Beside tables (f s.world.host s).2 (g s'.world.host s').2
  rw [← beside.host]
  exact h s.world.host s s' beside

/-- A name is set in the own table. -/
theorem Alongside.set (name : String) (v : Value) :
    Alongside tables (modifyScope fun s => s.set name v) (modifyScope fun s => s.set name v) :=
  fun _ _ beside => ⟨rfl, congrArg (Table.insert · name v) beside.own, beside.outer, beside.host,
    beside.memory⟩

theorem Alongside.attempt {x y : Eval α} (h : Alongside tables x y) :
    Alongside tables (attempt x) (attempt y) := by
  intro s s' beside
  obtain ⟨hr, left⟩ := h s s' beside
  rw [state_attempt, state_attempt]
  exact ⟨attempt_congr hr, left⟩

theorem Alongside.locating (file : String) (pos : Option Position) {x y : Eval α}
    (h : Alongside tables x y) : Alongside tables (locating file pos x) (locating file pos y) := by
  intro s s' beside
  obtain ⟨hr, left⟩ := h s s' beside
  rw [state_locating, state_locating]
  exact ⟨locating_congr file pos hr, left⟩

/-- A scope inside another has the same further tables around it. -/
theorem beside_child {s s' : State} (beside : s.Beside tables s') :
    State.Beside tables { s with scope := s.scope.child } { s' with scope := s'.scope.child } := by
  refine ⟨rfl, ?_, beside.host, beside.memory⟩
  show s.scope.own :: s.scope.outer = s'.scope.own :: s'.scope.outer ++ tables
  rw [beside.own, beside.outer, List.cons_append]

/-- Two documents in scopes of their own. Nothing needs to be known of the scopes around them but how
they are seen from inside. -/
theorem alongside_within {inside : List (Table Value)} {x y : Eval Unit}
    (h : Alongside inside x y) {other other' : Scope → Scope} {s s' : State}
    (entered : State.Beside inside { s with scope := other s.scope }
      { s' with scope := other' s'.scope }) :
    (within other x s).1 = (within other' y s').1 ∧
      (within other x s).2.world.host = (within other' y s').2.world.host ∧
      (within other x s).2.world.memory = (within other' y s').2.world.memory := by
  obtain ⟨hr, left⟩ := h _ _ entered
  unfold within
  generalize x { s with scope := other s.scope } = ending at hr left
  generalize y { s' with scope := other' s'.scope } = ending' at hr left
  obtain ⟨r, t⟩ := ending
  obtain ⟨_, t'⟩ := ending'
  cases hr
  rcases r with fault | _
  · exact ⟨rfl, left.host, left.memory⟩
  · exact ⟨congrArg Except.ok left.own, left.host, left.memory⟩

/-- A scope inside has nothing of its own at first, and what was the scope's own table is then one of those
around it, the same on both sides. -/
theorem Alongside.inChild {x y : Eval Unit} (h : Alongside tables x y) :
    Alongside tables (inChild x) (inChild y) := by
  intro s s' beside
  obtain ⟨hr, host, memory⟩ := alongside_within h (beside_child beside)
  refine ⟨hr, ?_, ?_, host, memory⟩
  · rw [Eval.inChild, Eval.inChild, scope_within, scope_within]
    exact beside.own
  · rw [Eval.inChild, Eval.inChild, scope_within, scope_within]
    exact beside.outer

/-- What is evaluated aside leaves no trace in the scope. -/
theorem Alongside.aside {x y : Eval α} (h : Alongside tables x y) :
    Alongside tables (fun s => match x { s with scope := s.scope.child } with
        | (r, s') => (r, { s' with scope := s.scope }))
      (fun s => match y { s with scope := s.scope.child } with
        | (r, s') => (r, { s' with scope := s.scope })) := by
  intro s s' beside
  obtain ⟨hr, left⟩ := h _ _ (beside_child beside)
  exact ⟨hr, beside.own, beside.outer, left.host, left.memory⟩

/-- **Evaluating alongside is kept by everything evaluation is put together from.** What is evaluated sees
and changes only what both states have in common, so they stay beside each other. -/
theorem congruence_alongside (tables : List (Table Value)) : Congruence (Alongside tables) where
  pure _ _ _ beside := ⟨rfl, beside⟩
  bind := Alongside.bind
  fail _ _ _ beside := ⟨rfl, beside⟩
  own := Alongside.own
  host := Alongside.host
  set := Alongside.set
  attempt := Alongside.attempt
  locating file pos _ _ h := h.locating file pos
  inChild := Alongside.inChild
  aside := Alongside.aside

/-! ## 3. Closed trees, to any depth of strings -/

/-- A name that further tables do not have means the same with them and without them. -/
theorem lookup_of_beside {s s' : State} (beside : s.Beside tables s') {name : String}
    (unbound : (tables.findSome? fun vars => Table.find? vars name) = none) :
    s.scope.lookup name = s'.scope.lookup name := by
  unfold Scope.lookup Scope.find?
  rw [beside.own, beside.outer, ← List.cons_append, List.findSome?_append, unbound, Option.or_none]

/-- A call sees its arguments and not the scope. -/
theorem alongside_call (f : Callable) (values : List Value) :
    Alongside tables (call f values) (call f values) := by
  intro s s' beside
  unfold call
  rw [beside.memory]
  rcases f values s'.world.memory with ⟨v | message | message, memory⟩ <;>
    exact ⟨rfl, beside.own, beside.outer, beside.host, rfl⟩

/-- A command sees what it was given. -/
theorem alongside_runCommand (src : Source) (c : Command) :
    Alongside tables (runCommand src c) (runCommand src c) := by
  intro s s' beside
  rw [runCommand_apply, runCommand_apply, beside.host]
  exact ⟨rfl, beside.own, beside.outer, beside.host, beside.memory⟩

variable {src : Source} {hooks hooks' : Hooks} {n : Node}

/-- A closed node mentions no name that is bound in the tables around its scope only, so both sides do the
same at each of its nodes. -/
theorem agreesHere_of_closed (closed : n.Closed tables)
    (spliced : ∀ m, Node.Closed tables m → Alongside tables (hooks.splice m) (hooks'.splice m)) :
    n.Everywhere (AgreesHere (Alongside tables) src src hooks hooks') := by
  have hR := congruence_alongside tables
  induction n using Node.induction_children with
  | step n ih =>
    -- Only names see the further tables, and only inclusions the cache; a closed tree has neither.
    refine .intro ⟨?_, fun m hm => spliced m (closed.spliced hm), ?_, ?_, ?_⟩
      fun m hm => ih m hm (closed.child hm)
    · rintro name rfl s s' beside
      refine ⟨?_, beside⟩
      exact congrArg Except.ok (lookup_of_beside beside (closed.unbound name .here))
    · exact fun _ _ _ _ values => hR.bind (hR.ofExcept _) fun f => alongside_call f values
    · rintro target pos rfl
      exact absurd (.here target pos) closed.includes
    · exact fun _ _ _ _ _ c => alongside_runCommand src c

/-- Expressions in strings of a closed node run alongside at every depth, by induction on it. -/
theorem alongside_splice_atDepth (inclusion inclusion' : String → Eval Value) (depth : Nat)
    {m : Node} (closed : m.Closed tables) :
    Alongside tables ((Hooks.atDepth inclusion src depth).splice m)
      ((Hooks.atDepth inclusion' src depth).splice m) := by
  have hR := congruence_alongside tables
  induction depth generalizing m with
  | zero => exact hR.fail _
  | succ depth ih =>
    have agrees : m.Everywhere (AgreesHere (Alongside tables) src src
        (Hooks.atDepth inclusion src depth) (Hooks.atDepth inclusion' src depth)) :=
      agreesHere_of_closed closed fun m => ih
    exact hR.bind (hR.evalWith ⟨rfl, rfl, rfl⟩ agrees) fun v => hR.ofExcept _

/-- Statements of a closed document. -/
theorem alongside_evalStatements (inclusion inclusion' : String → Eval Value) (depth : Nat)
    {nodes : List Node} (closed : ∀ n ∈ nodes, n.Closed tables) :
    Alongside tables (evalStatements src (Hooks.atDepth inclusion src depth) nodes)
      (evalStatements src (Hooks.atDepth inclusion' src depth) nodes) := by
  have hR := congruence_alongside tables
  refine hR.evalStatements ⟨rfl, rfl, rfl⟩ fun n hn => ?_
  refine hR.evalWith ⟨rfl, rfl, rfl⟩ (agreesHere_of_closed (closed n hn) fun m hm => ?_)
  exact alongside_splice_atDepth inclusion inclusion' depth hm

/-! ## 4. From the cache or anew -/

/-- What a closed document comes to inside its caller's scope, and what on its own. -/
theorem inChild_alongside_inFresh {nodes : List Node} {s t : State}
    (closed : ∀ n ∈ nodes, n.Closed (s.scope.own :: s.scope.outer))
    (host : s.world.host = t.world.host) (memory : s.world.memory = t.world.memory)
    (src : Source) (inclusion inclusion' : String → Eval Value) (depth : Nat) :
    let inCaller := inChild (evalStatements src (Hooks.atDepth inclusion src depth) nodes) s
    let onItsOwn := inFresh (evalStatements src (Hooks.atDepth inclusion' src depth) nodes) t
    inCaller.1 = onItsOwn.1 ∧ inCaller.2.world.host = onItsOwn.2.world.host ∧
      inCaller.2.world.memory = onItsOwn.2.world.memory := by
  have entered : State.Beside (s.scope.own :: s.scope.outer) { s with scope := s.scope.child }
      { t with scope := Scope.root [] } := ⟨rfl, rfl, host, memory⟩
  exact alongside_within (alongside_evalStatements inclusion inclusion' depth closed) entered

/-- **A closed document is evaluated alike inside its caller's scope and on its own:** as one from the
cache is, and as one that is included for the first time. It is closed if it has no inclusions and
mentions no name that its caller has. What is in the cache makes no difference, nor does what an
inclusion would do. -/
theorem inChild_eq_inFresh {nodes : List Node} {s t : State}
    (includes : ∀ n ∈ nodes, ¬ n.Includes)
    (unbound : ∀ n ∈ nodes, ∀ name, n.Mentions name → s.scope.find? name = none)
    (host : s.world.host = t.world.host) (memory : s.world.memory = t.world.memory)
    (src : Source) (inclusion inclusion' : String → Eval Value) (depth : Nat) :
    let inCaller := inChild (evalStatements src (Hooks.atDepth inclusion src depth) nodes) s
    let onItsOwn := inFresh (evalStatements src (Hooks.atDepth inclusion' src depth) nodes) t
    inCaller.1 = onItsOwn.1 ∧ inCaller.2.world.host = onItsOwn.2.world.host ∧
      inCaller.2.world.memory = onItsOwn.2.world.memory :=
  inChild_alongside_inFresh (fun n hn => ⟨includes n hn, unbound n hn⟩) host memory src inclusion
    inclusion' depth

/-- Two assignments, the second of them to the value of the first. -/
def twoAssignments : List Node :=
  [.assign ⟨"a", ⟨1, 1⟩⟩ (.literal (.int 1)) .equals, .assign ⟨"b", ⟨2, 1⟩⟩ (.ident "a") .equals]

/-- A caller with a name of its own, and the same surroundings without a caller. -/
def callerOfTwoAssignments : State :=
  ⟨.root [("c", .int 3)], ⟨⟨⟨[], []⟩, "/", [], []⟩, .fresh, [], []⟩⟩

/-- Two assignments, of which the second reads what the first has bound. -/
theorem inChild_eq_inFresh_twoAssignments :
    let inclusion : String → Eval Value := fun target => fail (.inclusion target .notFound)
    let src : Source := ⟨⟨.default, [], fun _ _ => .error "no commands"⟩, "<input>", "/", []⟩
    let run := evalStatements src (Hooks.atDepth inclusion src 0) twoAssignments
    (∀ n ∈ twoAssignments, ¬ n.Includes) ∧
      (∀ n ∈ twoAssignments, ∀ name, n.Mentions name →
        callerOfTwoAssignments.scope.find? name = none) ∧
      (inChild run callerOfTwoAssignments).1 = .ok [("a", .int 1), ("b", .int 1)] ∧
      (inFresh run callerOfTwoAssignments).1 = .ok [("a", .int 1), ("b", .int 1)] := by
  have noString {n m : Node} (h : ∀ s quote tag, n ≠ .literal (.str s quote tag)) : ¬ n.Splices m :=
    fun ⟨s, quote, tag, _, _, hs, _⟩ => h s quote tag hs
  have closed : ∀ n ∈ twoAssignments, n.Closed [[("c", .int 3)]] := by
    have number : (Node.literal (.int 1)).Closed [[("c", .int 3)]] :=
      .intro nofun nofun nofun fun m hm => absurd hm (noString nofun)
    have name : (Node.ident "a").Closed [[("c", .int 3)]] :=
      .intro nofun (fun _ h => by cases h; rfl) nofun fun m hm => absurd hm (noString nofun)
    refine List.forall_mem_cons.2 ⟨?_, List.forall_mem_singleton.2 ?_⟩
    · exact .intro nofun nofun (List.forall_mem_singleton.2 number)
        fun m hm => absurd hm (noString nofun)
    · exact .intro nofun nofun (List.forall_mem_singleton.2 name)
        fun m hm => absurd hm (noString nofun)
  have includes := fun n hn => (closed n hn).includes
  have unbound := fun n hn => (closed n hn).unbound
  intro inclusion src run
  have alike := (inChild_eq_inFresh (s := callerOfTwoAssignments) (t := callerOfTwoAssignments)
    includes unbound rfl rfl src inclusion inclusion 0).1
  exact ⟨includes, unbound, alike.trans rfl, rfl⟩

section

variable {src : Source} {target text : String} {s : State} {place : Location} {nodes : List Node}

/-- **Whether a closed document comes from the cache or is new makes no difference** to the result of an
inclusion and to the scope that it leaves. -/
theorem includeWithin_keeping (k : Nat) (found : src.find s.world.host target = .ok place)
    (missing : Table.find? s.world.cache place.key = none)
    (fetched : s.world.host.textAt place = .ok text) (read : Node.parse text place.key = .ok nodes)
    (closed : ∀ n ∈ nodes, n.Closed (s.scope.own :: s.scope.outer)) :
    (src.includeWithin k target (s.keeping place.key nodes)).1 = (src.includeWithin k target s).1 ∧
      (src.includeWithin k target (s.keeping place.key nodes)).2.scope =
        (src.includeWithin k target s).2.scope := by
  cases k with
  | zero => exact ⟨rfl, rfl⟩
  | succ k =>
    rw [Source.includeWithin]
    have found' : src.find (s.keeping place.key nodes).world.host target = .ok place := found
    by_cases opened : place.key ∈ src.opened
    · rw [includeWith_eq (.circular found opened), includeWith_eq (.circular found' opened)]
      exact ⟨rfl, rfl⟩
    have cached : Table.find? (s.keeping place.key nodes).world.cache place.key = some nodes := by
      rw [State.keeping_world, World.keeping, Table.find?_insert, if_pos rfl]
    -- What is run is the same, and the scope around it does not matter.
    let inner := src.nested place.key place.key
    let run := evalStatements inner
      (Hooks.atDepth (Source.includeWithin k inner) inner (longestTextAll nodes)) nodes
    have hr : (inChild run (s.keeping place.key nodes)).1 = (inFresh run (s.noting place.event)).1 :=
      (inChild_alongside_inFresh (s := s.keeping place.key nodes) (t := s.noting place.event) closed
        rfl rfl inner _ _ _).1
    have hs : (inChild run (s.keeping place.key nodes)).2.scope = s.scope := scope_within _ _ _
    have hs' : (inFresh run (s.noting place.event)).2.scope = s.scope := scope_within _ _ _
    rcases ran : inChild run (s.keeping place.key nodes) with ⟨r, t⟩
    rcases ran' : inFresh run (s.noting place.event) with ⟨r', t'⟩
    rw [ran, ran'] at hr
    rw [ran] at hs
    rw [ran'] at hs'
    cases hr
    cases r with
    | error fault =>
      rw [includeWith_eq (.againFailed found' opened cached ran),
        includeWith_eq (.anewFailed found opened missing fetched read ran')]
      exact ⟨rfl, hs.trans hs'.symm⟩
    | ok vars =>
      rw [includeWith_eq (.again found' opened cached ran),
        includeWith_eq (.anew found opened missing fetched read ran')]
      refine ⟨rfl, ?_⟩
      rw [State.taking_scope, State.taking_scope, State.keeping_scope, hs.trans hs'.symm]

end

end Eval

end BlockConfig
