import BlockConfig.Proofs.Eval.Activity
import BlockConfig.Proofs.Inclusion.Cache

/-!
What the settings forbid does not happen.

Commands and remote documents are asked for in one place each, and every request is noted in the trace
before it is answered. So that something never happens is a statement about the events that an evaluation
adds to the trace: all of them are such as the settings permit (`World.Obeys`).

A command is run by the node of a command only, behind its own look at the settings, and a remote document
is asked for only if the settings let it be found (`Settings.permits_of_find`). All that an activity does
otherwise its parts do (`Activity.keepsTo`), whatever construct has led to them: a part is evaluated under
the same settings as the whole, be it in another scope, in a string or in a document that is included, from
the cache or anew. And what no evaluation does does not happen in a history of them either.
-/

set_option autoImplicit false

namespace BlockConfig

/-! ## 1. Permitted events -/

/-- Whether an event may happen under some settings. -/
def Settings.Permits (settings : Settings) : Event → Prop
  | .command _ => settings.allowExec = true
  | .remote _ => settings.allowRemote = true
  | .file _ | .included _ => True

/-- A document that is found may be asked for. -/
theorem Settings.permits_of_find {src : Source} {host : Host} {target : String} {place : Location}
    (found : src.find host target = .ok place) : src.engine.settings.Permits place.event := by
  unfold Source.find at found
  by_cases remote : isRemote target = true
  · rw [if_pos remote] at found
    by_cases allowed : src.engine.settings.allowRemote = true
    · rw [if_pos allowed] at found
      cases found
      exact allowed
    · rw [if_neg allowed] at found
      cases found
  · rw [if_neg remote] at found
    cases first : (src.candidates target).find? host.isFile with
    | none =>
      rw [first] at found
      cases found
    | some path =>
      rw [first] at found
      cases found
      trivial

/-- What has happened from one world to another is permitted. -/
def World.Obeys (settings : Settings) (w w' : World) : Prop :=
  ∃ events, w'.trace = w.trace ++ events ∧ ∀ e ∈ events, settings.Permits e

namespace World.Obeys

variable {settings : Settings} {w w' w'' : World}

theorem of_trace_eq (h : w'.trace = w.trace) : Obeys settings w w' :=
  ⟨[], by rw [h, List.append_nil], fun _ he => absurd he List.not_mem_nil⟩

theorem refl (w : World) : Obeys settings w w :=
  of_trace_eq rfl

theorem trans (h : Obeys settings w w') (h' : Obeys settings w' w'') : Obeys settings w w'' := by
  obtain ⟨events, htrace, hevents⟩ := h
  obtain ⟨later, htrace', hlater⟩ := h'
  refine ⟨events ++ later, by rw [htrace', htrace, List.append_assoc], fun e he => ?_⟩
  rcases List.mem_append.1 he with he | he
  · exact hevents e he
  · exact hlater e he

theorem noting (w : World) {e : Event} (permitted : settings.Permits e) :
    Obeys settings w (w.noting e) := by
  refine ⟨[e], rfl, fun e' he => ?_⟩
  rwa [List.mem_singleton.1 he]

end World.Obeys

namespace Eval

open World (Obeys)

/-! ## 2. What keeps to the settings -/

/-- From a state, an evaluation does nothing but what is permitted. -/
def KeepsTo (settings : Settings) {α : Type} (x : Eval α) (s : State) : Prop :=
  Obeys settings s.world (x s).2.world

section

variable {settings : Settings} {s : State}

/-- What a sequence does is what its members do, so it is permitted if all of that is. -/
theorem inherited_keepsTo (settings : Settings) : Inherited (KeepsTo settings) where
  pure _ s := .refl s.world
  bind {_ _ x f s} h hf := by
    unfold KeepsTo at h ⊢
    rw [bind_apply]
    generalize x s = ending at h hf
    rcases ending with ⟨fault | a, t⟩
    · exact h
    · exact h.trans (hf a t rfl)
  fail _ s := .refl s.world
  scope s := .refl s.world
  world s := .refl s.world
  attempt h := by
    unfold KeepsTo
    rw [state_attempt]
    exact h

theorem KeepsTo.locating {α : Type} {x : Eval α} (h : KeepsTo settings x s) (file : String)
    (pos : Option Position) : KeepsTo settings (locating file pos x) s := by
  unfold KeepsTo
  rw [state_locating]
  exact h

/-- The world does not know of scopes. -/
theorem encloses_keepsTo (settings : Settings) :
    Encloses (KeepsTo settings) (KeepsTo settings) where
  inChild h := by
    unfold KeepsTo inChild
    rw [world_within]
    exact h
  aside h := h

theorem keepsTo_call (f : Callable) (values : List Value) (s : State) :
    KeepsTo settings (call f values) s :=
  .of_trace_eq (by rw [state_call])

theorem keepsTo_runCommand {src : Source} (allowed : settings.allowExec = true) (c : Command)
    (s : State) : KeepsTo settings (runCommand src c) s := by
  unfold KeepsTo
  rw [runCommand_apply]
  exact .noting s.world allowed

/-- **An inclusion keeps to the settings** if the document that it enters does. By itself it notes a fetch,
which the settings have allowed when the target was found, and an inclusion, for which nothing is needed. -/
theorem keepsTo_includeWith {run : Source → List Node → Eval Unit} {src : Source} {target : String}
    (h : ∀ inner nodes t, Enters src target s inner nodes t →
      KeepsTo src.engine.settings (run inner nodes) t) :
    KeepsTo src.engine.settings (includeWith run src target) s := by
  have outcome := included run src target s
  unfold KeepsTo
  generalize (includeWith run src target s).1 = r at outcome
  generalize (includeWith run src target s).2 = s' at outcome
  have inside {other : Scope → Scope} {act : Eval Unit} {s s' : State}
      {r : Except Fault (Table Value)} (ran : within other act s = (r, s'))
      (h : KeepsTo src.engine.settings act { s with scope := other s.scope }) :
      Obeys src.engine.settings s.world s'.world := by
    unfold KeepsTo at h
    rwa [← world_within other act s, ran] at h
  -- The last event of a successful inclusion is a note, and a note asks for nothing.
  have taking (w : World) (key : String) : Obeys src.engine.settings w (w.noting (.included key)) :=
    .noting w trivial
  cases outcome with
  | lost | circular => exact .refl s.world
  | unfetched found => exact .noting s.world (Settings.permits_of_find found)
  | unread found => exact .noting s.world (Settings.permits_of_find found)
  | again found closed cached ran =>
    exact (inside ran (h _ _ _ (.again found closed cached))).trans (taking _ _)
  | againFailed found closed cached ran =>
    exact inside ran (h _ _ _ (.again found closed cached))
  | anew found closed missing fetched read ran =>
    have asked := World.Obeys.noting s.world (Settings.permits_of_find found)
    have ran := inside ran (h _ _ _ (.anew found closed missing fetched read))
    exact (asked.trans ran).trans (taking _ _)
  | anewFailed found closed missing fetched read ran =>
    have asked := World.Obeys.noting s.world (Settings.permits_of_find found)
    exact asked.trans (inside ran (h _ _ _ (.anew found closed missing fetched read)))

end

end Eval

namespace Activity

open Eval

/-- **An activity keeps to the settings.** By induction along its parts, those in strings and in included
documents among them, which are all evaluated with the same settings. -/
theorem keepsTo (a : Activity) :
    KeepsTo a.src.engine.settings (a.node.evalWith a.src a.hooks) a.state := by
  induction a using induction_parts with
  | step a ih =>
    have hP := inherited_keepsTo a.src.engine.settings
    have parts (here : Bool) (task : Task) (t : State)
        (runs : Runs a.src a.hooks a.node a.state here task t) :
        KeepsTo a.src.engine.settings (task.run a.src a.hooks) t := by
      cases task with
      | operand m => exact ih here false _ (.operand runs)
      | statement m => exact (ih here true _ (.statement runs)).locating a.src.file m.pos?
      | spliced m =>
        cases runs.here_of_leaves rfl
        exact inherited_splice hP fun depth room => ih true false _ (.spliced room runs)
      | included target =>
        cases runs.here_of_leaves rfl
        refine inherited_inclusion hP fun left room => keepsTo_includeWith fun inner nodes u enters => ?_
        rw [← enters.engine]
        -- The statements of the document that is opened are parts too, and have the same settings.
        refine (inherited_keepsTo inner.engine.settings).evalStatements fun m v turn => ?_
        exact (ih false true _ (.included room runs enters turn)).locating inner.file m.pos?
    exact evalWith_of_runs hP hP (encloses_keepsTo _) (fun _ _ t => .refl t.world)
      (fun _ _ _ t => .refl t.world) keepsTo_call (fun allowed => keepsTo_runCommand allowed)
      (parts true) (parts false)

theorem keepsTo_run (src : Source) (nodes : List Node) (s : State) :
    KeepsTo src.engine.settings (src.run nodes) s := by
  unfold KeepsTo
  rw [Source.run_apply]
  refine (inherited_keepsTo src.engine.settings).evalStatements fun m t turn => ?_
  exact (keepsTo ⟨src, s.world.reach + 1, longestTextAll nodes, m, t⟩).locating src.file m.pos?

theorem keepsTo_evalValue (src : Source) (n : Node) (s : State) :
    KeepsTo src.engine.settings (n.evalValue src) s := by
  have hP := inherited_keepsTo src.engine.settings
  have evaluated : KeepsTo src.engine.settings (n.eval src) s := by
    unfold KeepsTo
    rw [← ending_whole]
    exact keepsTo (whole src n s)
  exact hP.bind evaluated fun v t _ => hP.ofExcept (v.plain_unwrapCall n) t

end Activity

/-! ## 3. Histories -/

namespace Engine

open World (Obeys)

theorem obeys_perform (e : Engine) (w : World) (c : Call) : Obeys e.settings w (e.perform w c) := by
  rcases e.perform_cases w c with ⟨h, -⟩ | ⟨src, nodes, rfl, h, -⟩ | ⟨src, n, scope, rfl, h, -⟩
  · rw [h]
    exact .refl w
  · rw [h]
    exact Activity.keepsTo_run src nodes ⟨.root [], w⟩
  · rw [h]
    exact Activity.keepsTo_evalValue src n ⟨scope, w⟩

/-- Over a whole history nothing else is done either. The settings are the same all the time, and the trace
of one act goes on from that of the acts before. -/
theorem obeys_history (e : Engine) (m : Moment) (acts : List Act) :
    Obeys e.settings m.world (e.history m acts).world := by
  induction acts generalizing m with
  | nil => exact .refl m.world
  | cons act acts ih =>
    have first : Obeys e.settings m.world (e.after m act).world := by
      cases act with
      | call c => exact e.obeys_perform m.world c
      | clear => exact .of_trace_eq rfl
      | surroundings host => exact .of_trace_eq rfl
    exact first.trans (ih (e.after m act))

/-- **What the settings forbid never happens.** In whatever surroundings an engine is used, for whatever
texts, documents, files and expressions, and whatever is in its cache: if its settings do not allow
commands then no command is run, and if they do not allow remote documents then none is asked for. -/
theorem permitted_through_history (e : Engine) (m : Moment) (acts : List Act) :
    ∃ events, (e.history m acts).world.trace = m.world.trace ++ events ∧
      (e.settings.allowExec = false → ∀ c, .command c ∉ events) ∧
      (e.settings.allowRemote = false → ∀ url, .remote url ∉ events) := by
  obtain ⟨events, htrace, permitted⟩ := e.obeys_history m acts
  refine ⟨events, htrace, fun forbidden c hc => ?_, fun forbidden url hurl => ?_⟩
  · have allowed : e.settings.allowExec = true := permitted _ hc
    rw [forbidden] at allowed
    cases allowed
  · have allowed : e.settings.allowRemote = true := permitted _ hurl
    rw [forbidden] at allowed
    cases allowed

/-- Settings that forbid commands and remote documents, and a history that asks for one of each: neither is
in the trace. -/
theorem permitted_through_history_forbidding :
    let e : Engine :=
      ⟨{ Settings.default with allowExec := false, allowRemote := false }, [], fun _ _ => .ok "done"⟩
    let w : World := ⟨⟨⟨[], []⟩, "/", [("http://x/d", "a = 1")], []⟩, .fresh, [], []⟩
    let acts : List Act := [.call (.document [.exec (.ident "c") none none ⟨1, 1⟩]),
      .call (.text "@include \"http://x/d\"")]
    ∃ events, (e.history (beginning w) acts).world.trace = events ∧
      (∀ c, .command c ∉ events) ∧ ∀ url, .remote url ∉ events := by
  intro e w acts
  obtain ⟨events, htrace, commands, remotes⟩ := permitted_through_history e (beginning w) acts
  exact ⟨events, htrace, commands rfl, remotes rfl⟩

end Engine

end BlockConfig
