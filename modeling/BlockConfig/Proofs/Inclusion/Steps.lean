import BlockConfig.Proofs.Eval.Property
import BlockConfig.Proofs.Inclusion.Outcome
import BlockConfig.Proofs.Inclusion.Place
import Mathlib.Logic.Relation

/-!
What an evaluation does to the world, one step after another.

An evaluation is taken apart into the single things that it does (`Moment.Step`): a function remembers
something, a command is noted, a document is asked for, a document has been included, from the cache or
anew. Each of them says under which condition it happens, so that whatever is to be shown of all points
of an evaluation is shown of one step.

What makes it work is that a document that is open is left alone. It is put into the cache only after
all of it has been evaluated, and in between there may be any number of other inclusions; but none of
them can be an inclusion of the same document, because that would be circular. So a step carries the
documents that are open, and no step asks for one of those or puts it into the cache
(`Moment.Path.grows`, `Moment.Path.untouched`). With that, every evaluation is a path of steps
(`Eval.Proceeds`): everything keeps this (`Eval.pervasive_proceeds`), and an inclusion has one case for
each way in which it can end.
-/

set_option autoImplicit false

namespace BlockConfig

/-- A host and an event: something that has happened, with the surroundings in which it did. -/
abbrev Happening : Type := Host × Event

/-- The last time that a document was asked for it was in these surroundings, and it had this text. -/
def Fetched (since : List Happening) (key : String) (h : Host) (text : String) : Prop :=
  ∃ before after, since = before ++ (h, (Location.ofKey key).event) :: after ∧
    (∀ entry ∈ after, entry.2 ≠ (Location.ofKey key).event) ∧
    h.textAt (.ofKey key) = .ok text

/-! ## 1. Moments and steps -/

/-- A point of a history: the world, and what has happened since its cache was last cleared. -/
structure Moment where
  world : World
  since : List Happening

namespace Moment

/-- The moment after one more event. -/
def noting (m : Moment) (e : Event) : Moment :=
  ⟨m.world.noting e, m.since ++ [(m.world.host, e)]⟩

/-- The moment with one more document in the cache. -/
def keeping (m : Moment) (key : String) (nodes : List Node) : Moment :=
  { m with world := m.world.keeping key nodes }

/-- The moment with another memory of the functions. -/
def remembering (m : Moment) (memory : Memory) : Moment :=
  { m with world := { m.world with memory := memory } }

/-- The document that the cache has under a key. -/
def cached? (m : Moment) (key : String) : Option (List Node) :=
  Table.find? m.world.cache key

variable (m : Moment) (e : Event) (key : String) (nodes : List Node) (memory : Memory)

@[simp] theorem cached?_noting : (m.noting e).cached? key = m.cached? key := rfl

@[simp] theorem cached?_keeping (key' : String) :
    (m.keeping key nodes).cached? key' = if key' = key then some nodes else m.cached? key' :=
  Table.find?_insert _ _ _ _

/-- One thing that an evaluation does to the world while some documents are open. -/
inductive Step (opened : List String) (m : Moment) : Moment → Prop
  | remember (memory : Memory) : Step opened m (m.remembering memory)
  | command (c : Command) : Step opened m (m.noting (.command c))
  | ask {key : String} (closed : key ∉ opened) (missing : m.cached? key = none) :
    Step opened m (m.noting (Location.ofKey key).event)
  | again {key : String} {nodes : List Node} (closed : key ∉ opened)
    (cached : m.cached? key = some nodes) : Step opened m (m.noting (.included key))
  | anew {key text : String} {nodes : List Node} (closed : key ∉ opened)
    (missing : m.cached? key = none) (fetched : Fetched m.since key m.world.host text)
    (read : Node.parse text key = .ok nodes) :
    Step opened m ((m.keeping key nodes).noting (.included key))

/-- What an evaluation does to the world while some documents are open, one step after another. -/
abbrev Path (opened : List String) : Moment → Moment → Prop :=
  Relation.ReflTransGen (Step opened)

variable {m} {m' : Moment} {opened : List String}

/-! ### What a step leaves as it is -/

/-- What can be done while documents are open can be done while fewer are. -/
theorem Step.fewer {less : List String} (h : Step opened m m') (hless : less ⊆ opened) :
    Step less m m' := by
  have closed : ∀ {k}, k ∉ opened → k ∉ less := fun hk h => hk (hless h)
  cases h with
  | remember memory => exact .remember memory
  | command c => exact .command c
  | ask hk missing => exact .ask (closed hk) missing
  | again hk cached => exact .again (closed hk) cached
  | anew hk missing fetched read => exact .anew (closed hk) missing fetched read

/-- No step changes the host. -/
theorem Step.host (h : Step opened m m') : m'.world.host = m.world.host := by
  cases h <;> rfl

/-- What is in the cache stays. -/
theorem Step.kept {key : String} {nodes : List Node} (h : Step opened m m')
    (cached : m.cached? key = some nodes) : m'.cached? key = some nodes := by
  cases h with
  | remember | command | ask | again => exact cached
  | @anew key' _ _ _ missing _ _ =>
    have other : key ≠ key' := by
      rintro rfl
      rw [cached] at missing
      cases missing
    simpa [other] using cached

/-- The entry of an open document does not change. -/
theorem Step.untouched {key : String} (h : Step opened m m') (isOpen : key ∈ opened) :
    m'.cached? key = m.cached? key := by
  cases h with
  | remember | command | ask | again => rfl
  | @anew key' _ _ closed _ _ _ =>
    have other : key ≠ key' := fun h => closed (h ▸ isOpen)
    simp [other]

/-- What happens is added to what has happened, and it is not that an open document is asked for. -/
theorem Step.grows (h : Step opened m m') : ∃ events : List Event,
    m'.world.trace = m.world.trace ++ events ∧
      m'.since = m.since ++ events.map (fun e => (m.world.host, e)) ∧
      ∀ e ∈ events, ∀ key ∈ opened, e ≠ (Location.ofKey key).event := by
  have single : ∀ {e e' : Event}, e ∈ [e'] → e = e' := List.eq_of_mem_singleton
  cases h with
  | remember => exact ⟨[], by simp [remembering]⟩
  | command c =>
    exact ⟨[.command c], rfl, rfl, fun e he key _ => single he ▸ (Location.event_ne_command _ c).symm⟩
  | @ask key' closed =>
    refine ⟨[(Location.ofKey key').event], rfl, rfl, fun e he key isOpen => ?_⟩
    rw [single he]
    rintro same
    exact closed (Location.ofKey_injective (Location.event_injective same) ▸ isOpen)
  | @again key' | @anew key' =>
    exact ⟨[.included key'], rfl, rfl, fun e he key _ =>
      single he ▸ (Location.event_ne_included _ key').symm⟩

namespace Path

/-- What may be done while some documents are open may be done while fewer are. -/
theorem fewer {less : List String} (h : Path opened m m') (hless : less ⊆ opened) :
    Path less m m' :=
  Relation.ReflTransGen.mono (fun _ _ step => Step.fewer step hless) _ _ h

theorem host (h : Path opened m m') : m'.world.host = m.world.host := by
  induction h with
  | refl => rfl
  | tail _ step ih => rw [step.host, ih]

/-- What is in the cache stays there as it is. -/
theorem kept {key : String} {nodes : List Node} (h : Path opened m m')
    (cached : m.cached? key = some nodes) : m'.cached? key = some nodes := by
  induction h with
  | refl => exact cached
  | tail _ step ih => exact step.kept ih

/-- Of a document that is open nothing is cached in the meantime. -/
theorem untouched {key : String} (h : Path opened m m') (isOpen : key ∈ opened) :
    m'.cached? key = m.cached? key := by
  induction h with
  | refl => rfl
  | tail _ step ih => rw [step.untouched isOpen, ih]

/-- All that is done is noted behind what was noted before, and no document is fetched that is open. -/
theorem grows (h : Path opened m m') : ∃ events : List Event,
    m'.world.trace = m.world.trace ++ events ∧
      m'.since = m.since ++ events.map (fun e => (m.world.host, e)) ∧
      ∀ e ∈ events, ∀ key ∈ opened, e ≠ (Location.ofKey key).event := by
  induction h with
  | refl => exact ⟨[], by simp⟩
  | @tail a b path step ih =>
    obtain ⟨events, ht, hs, quiet⟩ := ih
    obtain ⟨more, ht', hs', quiet'⟩ := step.grows
    rw [host path] at hs'
    refine ⟨events ++ more, by rw [ht', ht, List.append_assoc],
      by rw [hs', hs, List.map_append, List.append_assoc], fun e he => ?_⟩
    rcases List.mem_append.1 he with he | he
    · exact quiet e he
    · exact quiet' e he

/-- While a document is open it is not fetched again. -/
theorem fetched {key text : String} (h : Path opened m m') (isOpen : key ∈ opened)
    (fetched : Fetched m.since key m.world.host text) :
    Fetched m'.since key m'.world.host text := by
  obtain ⟨before, after, hsince, quiet, hat⟩ := fetched
  obtain ⟨events, -, hs, quiet'⟩ := h.grows
  rw [h.host]
  refine ⟨before, after ++ events.map (fun e => (m.world.host, e)), ?_, fun entry hmem => ?_, hat⟩
  · rw [hs, hsince, List.append_assoc, List.cons_append]
  · rcases List.mem_append.1 hmem with hmem | hmem
    · exact quiet entry hmem
    · obtain ⟨e, he, rfl⟩ := List.mem_map.1 hmem
      exact quiet' e he key isOpen

end Path

end Moment

/-! ## 2. Evaluations are paths -/

namespace Eval

open Moment

variable {α β : Type} {opened : List String}

/-- Whatever an evaluation does to the world, it does step by step while some documents are open. -/
def Proceeds (opened : List String) (x : Eval α) : Prop :=
  ∀ (s : State) (since : List Happening), ∃ since',
    Path opened ⟨s.world, since⟩ ⟨(x s).2.world, since'⟩

/-- What does nothing to the world proceeds. -/
theorem Proceeds.of_world_eq {x : Eval α} (h : ∀ s, (x s).2.world = s.world) :
    Proceeds opened x := fun s since => ⟨since, by rw [h s]⟩

/-- A sequence proceeds if its parts do: the path of the second goes on from where that of the first has
ended. -/
theorem Proceeds.bind {x : Eval α} {f : α → Eval β} (h : Proceeds opened x)
    (hf : ∀ a, Proceeds opened (f a)) : Proceeds opened (x >>= f) := by
  intro s since
  obtain ⟨since₁, path⟩ := h s since
  rw [bind_apply]
  generalize x s = ending at path
  rcases ending with ⟨fault | a, s'⟩
  · exact ⟨since₁, path⟩
  · obtain ⟨since₂, path'⟩ := hf a s' since₁
    exact ⟨since₂, path.trans path'⟩

theorem Proceeds.within {x : Eval Unit} (h : Proceeds opened x) (other : Scope → Scope) :
    Proceeds opened (within other x) := by
  intro s since
  rw [world_within]
  exact h { s with scope := other s.scope } since

theorem Proceeds.attempt {x : Eval α} (h : Proceeds opened x) : Proceeds opened (attempt x) := by
  intro s since
  rw [state_attempt]
  exact h s since

theorem Proceeds.locating {x : Eval α} (h : Proceeds opened x) (file : String)
    (pos : Option Position) : Proceeds opened (locating file pos x) := by
  intro s since
  rw [state_locating]
  exact h s since

/-- A function may change its memory, which is a step. -/
theorem Proceeds.call (f : Callable) (values : List Value) : Proceeds opened (call f values) := by
  intro s since
  have step : Step opened ⟨s.world, since⟩ _ := .remember (f values s.world.memory).2
  rw [state_call]
  exact ⟨since, .single step⟩

/-- A command is noted, which is a step too. -/
theorem Proceeds.runCommand (src : Source) (c : Command) :
    Proceeds opened (runCommand src c) := by
  intro s since
  have step : Step opened ⟨s.world, since⟩ _ := .command c
  rw [runCommand_apply]
  exact ⟨since ++ [(s.world.host, Event.command c)], .single step⟩

/-- **Proceeding step by step is kept by everything.** What only looks at the world or changes a scope makes
no step; a call remembers something, and a command is noted. -/
theorem pervasive_proceeds (opened : List String) : Pervasive (Proceeds opened) where
  congruence :=
    { pure _ := .of_world_eq fun _ => rfl
      bind := Proceeds.bind
      fail _ := .of_world_eq fun _ => rfl
      own h := Proceeds.bind (.of_world_eq fun _ => rfl) fun a => h a a rfl
      host h := Proceeds.bind (.of_world_eq fun _ => rfl) fun w => h w.host
      set _ _ := .of_world_eq fun _ => rfl
      attempt := Proceeds.attempt
      locating file pos _ _ h := h.locating file pos
      inChild h := h.within Scope.child
      aside h s since := h { s with scope := s.scope.child } since }
  world := .of_world_eq fun _ => rfl
  named _ := .of_world_eq fun _ => rfl
  called := Proceeds.call
  commanded := Proceeds.runCommand

/-! ## 3. Inclusions are paths -/

/-- A document that was asked for is run. Until that is done, it is neither asked for again nor put
into the cache. -/
theorem path_of_anew {x : Eval Unit} {place : Location} {text : String}
    (h : Proceeds (opened ++ [place.key]) x) {s : State} (since : List Happening)
    (known : Location.ofKey place.key = place) (closed : place.key ∉ opened)
    (missing : Table.find? s.world.cache place.key = none)
    (fetched : s.world.host.textAt place = .ok text) :
    ∃ since', Path opened ⟨s.world, since⟩ ⟨(inFresh x (s.noting place.event)).2.world, since'⟩ ∧
      Table.find? (inFresh x (s.noting place.event)).2.world.cache place.key = none ∧
      Fetched since' place.key (inFresh x (s.noting place.event)).2.world.host text := by
  obtain ⟨since', path⟩ := h.within (fun _ => Scope.root []) (s.noting place.event)
    (since ++ [(s.world.host, place.event)])
  -- The document is open while it runs, so its path leaves alone what asking for it has set up.
  have isOpen : place.key ∈ opened ++ [place.key] :=
    List.mem_append_right _ (List.mem_singleton_self _)
  have asking : Step opened ⟨s.world, since⟩
      ⟨(s.noting place.event).world, since ++ [(s.world.host, place.event)]⟩ := by
    rw [← known]
    exact .ask closed missing
  refine ⟨since', .head asking (path.fewer (List.subset_append_left _ _)), ?_, ?_⟩
  · exact (path.untouched isOpen).trans missing
  · refine path.fetched isOpen ⟨since, [], ?_, nofun, ?_⟩
    · rw [known]
      rfl
    · rw [known]
      exact fetched

/-- **Including a document proceeds step by step,** if running one does. A document is asked for and then
run, and at the end one step keeps it in the cache and notes that it was included. -/
theorem proceeds_includeWith {run : Source → List Node → Eval Unit}
    (hrun : ∀ inner nodes, Proceeds inner.opened (run inner nodes)) (src : Source)
    (target : String) : Proceeds src.opened (includeWith run src target) := by
  intro s since
  have less (place : Location) : src.opened ⊆ (src.nested place.key place.key).opened :=
    List.subset_append_left _ _
  have asked {place : Location} (found : src.find s.world.host target = .ok place)
      (closed : place.key ∉ src.opened) (missing : Table.find? s.world.cache place.key = none) :
      Path src.opened ⟨s.world, since⟩ (Moment.noting ⟨s.world, since⟩ place.event) := by
    rw [← Source.ofKey_of_find found]
    exact .single (.ask closed missing)
  have h := included run src target s
  generalize (includeWith run src target s).1 = r at h
  generalize (includeWith run src target s).2 = s' at h
  -- If a document is run, that is the path; what is left to do is the step that notes it at the end.
  cases h with
  | lost | circular => exact ⟨since, .refl⟩
  | @again place nodes vars s' found closed cached ran =>
    obtain ⟨since₁, path⟩ := (hrun (src.nested place.key place.key) nodes).within Scope.child s since
    rw [show within Scope.child _ s = _ from ran] at path
    have path := path.fewer (less place)
    exact ⟨_, path.tail (.again closed (path.kept cached))⟩
  | @againFailed place nodes fault s' found closed cached ran =>
    obtain ⟨since₁, path⟩ := (hrun (src.nested place.key place.key) nodes).within Scope.child s since
    rw [show within Scope.child _ s = _ from ran] at path
    exact ⟨_, path.fewer (less place)⟩
  | unfetched found closed missing fetched => exact ⟨_, asked found closed missing⟩
  | unread found closed missing fetched read => exact ⟨_, asked found closed missing⟩
  | @anew place text nodes vars s' found closed missing fetched read ran =>
    obtain ⟨since₁, path, still, fetched⟩ :=
      path_of_anew (hrun (src.nested place.key place.key) nodes) since
        (Source.ofKey_of_find found) closed missing fetched
    rw [ran] at path still fetched
    exact ⟨_, path.tail (.anew closed still fetched read)⟩
  | @anewFailed place text nodes fault s' found closed missing fetched read ran =>
    obtain ⟨since₁, path, -⟩ :=
      path_of_anew (hrun (src.nested place.key place.key) nodes) since
        (Source.ofKey_of_find found) closed missing fetched
    rw [ran] at path
    exact ⟨_, path⟩

/-- **Including documents proceeds step by step,** however deep. The documents that are open stay open
inside, so that the steps within are steps of the whole. -/
theorem proceeds_includeWithin (n : Nat) (src : Source) (target : String) :
    Proceeds src.opened (src.includeWithin n target) := by
  induction n generalizing src target with
  | zero => exact .of_world_eq fun _ => rfl
  | succ n ih =>
    refine proceeds_includeWith (fun inner nodes => ?_) src target
    exact (pervasive_proceeds inner.opened).evalStatements_atDepth (ih inner) _ nodes

end Eval

end BlockConfig
