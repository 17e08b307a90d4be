import BlockConfig.Proofs.Inclusion.Atomic
import BlockConfig.Proofs.Inclusion.Lasting

/-!
Inclusions that succeed.

What a single inclusion does with the cache is told by how it ends (`Activity.Outcome`): if it succeeds
its document is in the cache, if it fails the entry of its document is what it was, and nothing is
fetched for what is in the cache. The reason is always that the document is open while it is run, so
that nothing in between can fetch it or put it into the cache.

An inclusion that succeeds ends with a note, and no note comes from anywhere else. So the notes in the
trace of an evaluation are those of the inclusions in it that have succeeded, each at the moment when it
did (`Activity.explains_ending`), and the trace says in which order they have.
-/

set_option autoImplicit false

namespace BlockConfig

open Eval

/-! ## 1. What one inclusion does -/

namespace Activity

/-- An activity is the inclusion of the document with a key. Its target has been evaluated in a state, and
from that state the document is looked for and found. -/
inductive IsInclusion (b : Activity) (key : String) (s : State) : Prop
  | intro {target : Node} {pos : Position} {text : String} {place : Location}
    (node : b.node = .inclusion target pos) (gives : Gives b.src b.hooks target b.state (.str text) s)
    (found : b.src.find s.world.host text = .ok place) (named : place.key = key)

/-- An activity ends with a value. -/
def Succeeds (b : Activity) : Prop :=
  ∃ v, b.ending.1 = .ok v

/-- Between two states a document is fetched, first of all and once, and it has a text. -/
def Fetches (key text : String) (s s' : State) : Prop :=
  s.world.host.textAt (.ofKey key) = .ok text ∧
    ∃ events, s'.world.trace = s.world.trace ++ (Location.ofKey key).event :: events ∧
      (Location.ofKey key).event ∉ events

/-- What comes of the inclusion of the document with a key, which is looked for in a state. -/
structure Outcome (key : String) (s : State) (r : Except Fault Value) (s' : State) : Prop where
  /-- What is in the cache stays as it is, and it is not fetched. -/
  hit {nodes : List Node} (cached : Table.find? s.world.cache key = some nodes) :
    Table.find? s'.world.cache key = some nodes ∧
      ∃ events, s'.world.trace = s.world.trace ++ events ∧ (Location.ofKey key).event ∉ events
  /-- What is not in the cache is there after a success, as it was read from the text that was fetched. -/
  miss {v : Value} (missing : Table.find? s.world.cache key = none) (ok : r = .ok v) :
    ∃ text nodes, Fetches key text s s' ∧ Node.parse text key = .ok nodes ∧
      Table.find? s'.world.cache key = some nodes
  /-- A failure leaves the entry as it was. -/
  failed {fault : Fault} (failed : r = .error fault) :
    Table.find? s'.world.cache key = Table.find? s.world.cache key
  /-- A success is what is noted last. -/
  noted {v : Value} (ok : r = .ok v) :
    ∃ before, s.world.trace <+: before ∧ s'.world.trace = before ++ [.included key]

/-- While a document is open it is left alone. -/
theorem untouched_of_ran {opened : List String} {key : String} {x : Eval Unit}
    (h : Proceeds (opened ++ [key]) x) {other : Scope → Scope} {s s' : State}
    {r : Except Fault (Table Value)} (ran : within other x s = (r, s')) :
    Table.find? s'.world.cache key = Table.find? s.world.cache key ∧
      ∃ events, s'.world.trace = s.world.trace ++ events ∧ (Location.ofKey key).event ∉ events := by
  obtain ⟨since', path⟩ := h.within other s []
  rw [ran] at path
  have isOpen : key ∈ opened ++ [key] := List.mem_append_right _ (List.mem_singleton_self _)
  obtain ⟨events, htrace, -, quiet⟩ := path.grows
  exact ⟨path.untouched isOpen, events, htrace, fun he => quiet _ he key isOpen rfl⟩

/-- A failed inclusion has the outcome of one if the entry of its document is as it was, and if that
document was not fetched once it was cached. -/
theorem outcome_of_failure {key : String} {s s' : State} {fault : Fault} {events : List Event}
    (same : Table.find? s'.world.cache key = Table.find? s.world.cache key)
    (htrace : s'.world.trace = s.world.trace ++ events)
    (quiet : ∀ {nodes}, Table.find? s.world.cache key = some nodes →
      (Location.ofKey key).event ∉ events) :
    Outcome key s (.error fault) s' where
  hit cached := ⟨same.trans cached, events, htrace, quiet cached⟩
  miss _ ok := by cases ok
  failed _ := same
  noted ok := by cases ok

/-- **What comes of an inclusion,** in whichever of its ways it ends. A document that is found in the cache
is not fetched again, and one that is not is fetched once, before all that it does. -/
theorem outcome_of_included {left : Nat} {src : Source} {target : String} {place : Location}
    {s s' : State} {r : Except Fault Value} (found : src.find s.world.host target = .ok place)
    (h : Included (Source.runWithin left) src target s r s') : Outcome place.key s r s' := by
  -- The document that is run includes others, but not itself. So it leaves its own entry alone, and
  -- what it notes is about other keys.
  have known := Source.ofKey_of_find found
  have proceeds (place : Location) (nodes : List Node) :=
    proceeds_runWithin left (src.nested place.key place.key) nodes
  have other (key : String) : (Location.ofKey key).event ≠ .included key :=
    Location.event_ne_included _ key
  cases h with
  | lost lost =>
    rw [found] at lost
    cases lost
  | circular => exact outcome_of_failure rfl (List.append_nil _).symm fun _ => List.not_mem_nil
  | @again place' nodes vars s' found' closed cached ran =>
    cases Except.ok.inj (found.symm.trans found')
    obtain ⟨same, events, htrace, quiet⟩ := untouched_of_ran (proceeds place nodes) ran
    exact {
      hit := fun cached => by
        refine ⟨same.trans cached, events ++ [.included place.key], ?_, ?_⟩
        · exact (congrArg (· ++ _) htrace).trans (List.append_assoc _ _ _)
        · simp [quiet, other]
      miss := fun missing _ => by
        rw [cached] at missing
        cases missing
      failed := fun failed => by cases failed
      noted := fun _ => ⟨s'.world.trace, ⟨events, htrace.symm⟩, rfl⟩ }
  | @againFailed place' nodes fault s' found' closed cached ran =>
    cases Except.ok.inj (found.symm.trans found')
    obtain ⟨same, events, htrace, quiet⟩ := untouched_of_ran (proceeds place nodes) ran
    exact outcome_of_failure same htrace fun _ => quiet
  | @unfetched place' reason found' closed missing fetched =>
    cases Except.ok.inj (found.symm.trans found')
    refine outcome_of_failure rfl rfl fun cached => ?_
    rw [missing] at cached
    cases cached
  | @unread place' text e found' closed missing fetched read =>
    cases Except.ok.inj (found.symm.trans found')
    refine outcome_of_failure rfl rfl fun cached => ?_
    rw [missing] at cached
    cases cached
  | @anew place' text nodes vars s' found' closed missing fetched read ran =>
    cases Except.ok.inj (found.symm.trans found')
    obtain ⟨same, events, htrace, quiet⟩ := untouched_of_ran (proceeds place nodes) ran
    have htrace' : s'.world.trace = s.world.trace ++ place.event :: events :=
      htrace.trans (by simp [State.noting, World.noting])
    -- The fetch comes first in the trace, then what the document did, then the note.
    exact {
      hit := fun cached => by
        rw [missing] at cached
        cases cached
      miss := fun _ _ => by
        refine ⟨text, nodes, ⟨by rw [known]; exact fetched, events ++ [.included place.key], ?_, ?_⟩,
          read, (Table.find?_insert _ _ _ _).trans (if_pos rfl)⟩
        · rw [known]
          exact (congrArg (· ++ _) htrace').trans (by simp)
        · simp [quiet, other]
      failed := fun failed => by cases failed
      noted := fun _ => ⟨s'.world.trace, ⟨_, htrace'.symm⟩, rfl⟩ }
  | @anewFailed place' text nodes fault s' found' closed missing fetched read ran =>
    cases Except.ok.inj (found.symm.trans found')
    obtain ⟨same, events, htrace, quiet⟩ := untouched_of_ran (proceeds place nodes) ran
    have htrace' : s'.world.trace = s.world.trace ++ place.event :: events :=
      htrace.trans (by simp [State.noting, World.noting])
    refine outcome_of_failure same htrace' fun cached => ?_
    rw [missing] at cached
    cases cached

variable {a b : Activity} {key : String} {s : State}

/-- What a node runs when it is an inclusion is what it ends with. -/
theorem ending_of_runs {here : Bool} {target : String}
    (runs : Runs b.src b.hooks b.node b.state here (.included target) s) :
    b.ending = b.src.includeWithin b.documents target s := by
  unfold ending
  generalize b.node = n at runs
  cases runs with
  | inclusion gives =>
    obtain ⟨r, ran, unwrapped⟩ := gives
    exact evalWith_inclusion ran unwrapped _

theorem includes_of_runs {here : Bool} {target : String} {place : Location}
    (runs : Runs b.src b.hooks b.node b.state here (.included target) s)
    (found : b.src.find s.world.host target = .ok place) : b.IsInclusion place.key s := by
  generalize hn : b.node = n at runs
  cases runs with
  | inclusion gives => exact .intro hn gives found rfl

/-- **What comes of an activity that is an inclusion.** If no more documents can be opened, it fails and
leaves everything as it was. -/
theorem IsInclusion.outcome (h : b.IsInclusion key s) : Outcome key s b.ending.1 b.ending.2 := by
  cases h with
  | @intro target pos text place node gives found named =>
    subst named
    have runs : Runs b.src b.hooks b.node b.state true (.included text) s := node ▸ .inclusion gives
    rw [ending_of_runs runs]
    cases b.documents with
    | zero => exact outcome_of_failure rfl (List.append_nil _).symm fun _ => List.not_mem_nil
    | succ left => exact outcome_of_included found (included _ _ _ s)

/-- When a document is looked for, an operand has just ended. -/
theorem IsInclusion.exists_part (h : b.IsInclusion key s) :
    ∃ d here statement, Part b here statement d ∧ d.ending.2 = s := by
  cases h with
  | @intro target pos text place node gives found named =>
    obtain ⟨r, ran, -⟩ := gives
    have runs : Runs b.src b.hooks b.node b.state true (.operand target) b.state := by
      rw [node]
      exact .operand rfl
    exact ⟨{ b with node := target }, true, false, .operand runs, congrArg Prod.snd ran⟩

/-! ## 2. What is noted -/

/-- A note of an inclusion is made where one of some activities ends: it is the inclusion of that
document, and it succeeds. -/
def NotedBy (p : Activity → Prop) (before : List Event) (key : String) : Prop :=
  ∃ b s, p b ∧ b.IsInclusion key s ∧ b.Succeeds ∧ b.ending.2.world.trace = before ++ [.included key]

/-- What has happened between two worlds is added to the trace, and every inclusion that is noted in it is
one of some activities. -/
structure Explains (p : Activity → Prop) (w w' : World) : Prop where
  grows : w.trace <+: w'.trace
  noted {before : List Event} {key : String} (start : w.trace <+: before)
    (here : before ++ [Event.included key] <+: w'.trace) : NotedBy p before key

namespace Explains

variable {p q : Activity → Prop} {w w' w'' : World}

theorem mono (h : Explains p w w') (hpq : ∀ b, p b → q b) : Explains q w w' where
  grows := h.grows
  noted start here := by
    obtain ⟨b, s, hb, rest⟩ := h.noted start here
    exact ⟨b, s, hpq b hb, rest⟩

theorem of_trace_eq (h : w'.trace = w.trace) : Explains p w w' where
  grows := h ▸ List.prefix_rfl
  noted start here := by
    have := here.length_le
    have := start.length_le
    rw [h, List.length_append, List.length_singleton] at *
    omega

theorem refl (w : World) : Explains p w w :=
  of_trace_eq rfl

/-- What explains two parts of a run explains the whole of it. -/
theorem trans (h : Explains p w w') (h' : Explains p w' w'') : Explains p w w'' where
  grows := h.grows.trans h'.grows
  noted {before key} start here := by
    -- A note that was not made before the world in the middle was made after it.
    rcases Nat.lt_or_ge before.length w'.trace.length with early | late
    · refine h.noted start (List.prefix_of_prefix_length_le here h'.grows ?_)
      rw [List.length_append, List.length_singleton]
      exact early
    · refine h'.noted (List.prefix_of_prefix_length_le h'.grows ?_ late) here
      exact (List.prefix_append _ _).trans here

/-- One more event, which is covered if it notes an inclusion. -/
theorem noting {e : Event} (h : ∀ key, e = .included key → NotedBy p w.trace key) :
    Explains p w (w.noting e) where
  grows := List.prefix_append _ _
  noted {before key} start here := by
    have short : (before ++ [Event.included key]).length ≤ (w.trace ++ [e]).length := here.length_le
    rw [List.length_append, List.length_append, List.length_singleton, List.length_singleton] at short
    have same : w.trace = before := start.eq_of_length (Nat.le_antisymm start.length_le (by omega))
    subst same
    have last : [Event.included key] = [e] :=
      List.append_cancel_left (here.eq_of_length (by simp [World.noting]))
    exact h key (List.singleton_inj.1 last).symm

end Explains

/-- From a state, whatever an evaluation notes is covered by some activities. -/
def ExplainsRun (p : Activity → Prop) {α : Type} (x : Eval α) (s : State) : Prop :=
  Explains p s.world (x s).2.world

/-- A sequence explains its run if its members do, since the trace of one goes on from that of the other. -/
theorem inherited_explainsRun (p : Activity → Prop) : Inherited (ExplainsRun p) where
  pure _ s := .refl s.world
  bind {_ _ x f s} h hf := by
    unfold ExplainsRun at h ⊢
    rw [bind_apply]
    rcases ran : x s with ⟨fault | b, t⟩
    · rwa [ran] at h
    · rw [ran] at h
      exact h.trans (hf b t ran)
  fail _ s := .refl s.world
  scope s := .refl s.world
  world s := .refl s.world
  attempt {_ x s} h := by
    unfold ExplainsRun
    rw [state_attempt]
    exact h

theorem explainsRun_within {p : Activity → Prop} {other : Scope → Scope} {x : Eval Unit}
    (h : ExplainsRun p x { s with scope := other s.scope }) : ExplainsRun p (within other x) s := by
  unfold ExplainsRun
  rw [world_within]
  exact h

theorem encloses_explainsRun (p : Activity → Prop) : Encloses (ExplainsRun p) (ExplainsRun p) where
  inChild h := explainsRun_within h
  aside h := h

theorem explainsRun_locating {p : Activity → Prop} {α : Type} {x : Eval α} (file : String)
    (pos : Option Position) (h : ExplainsRun p x s) : ExplainsRun p (locating file pos x) s := by
  unfold ExplainsRun
  rw [state_locating]
  exact h

/-- An inclusion notes what its document does, and that it has succeeded. -/
theorem explainsRun_includeWith {left : Nat} {target : String} (room : a.documents = left + 1)
    (runs : Runs a.src a.hooks a.node a.state true (.included target) s)
    (ih : ∀ here statement b, Part a here statement b →
      ExplainsRun a.Within (b.node.evalWith b.src b.hooks) b.state) :
    ExplainsRun a.Within (includeWith (Source.runWithin left) a.src target) s := by
  have opened {inner : Source} {nodes : List Node} {t : State}
      (enters : Enters a.src target s inner nodes t) :
      ExplainsRun a.Within (Source.runWithin left inner nodes) t :=
    (inherited_explainsRun a.Within).evalStatements fun m v turn =>
      explainsRun_locating _ _ (ih _ _ _ (.included room runs enters turn))
  have asked (place : Location) : Explains a.Within s.world (s.noting place.event).world :=
    .noting fun key h => absurd h (Location.event_ne_included place key)
  have ending := ending_of_runs runs
  rw [room, Source.includeWithin_succ] at ending
  have h := included (Source.runWithin left) a.src target s
  unfold ExplainsRun
  generalize (includeWith (Source.runWithin left) a.src target s) = result at h ending
  obtain ⟨r, s'⟩ := result
  -- The note of a success is made where the activity ends.
  have succeeded {place : Location} (found : a.src.find s.world.host target = .ok place) {v : Value}
      {w : World} (ok : r = .ok v) (last : s'.world = w.noting (.included place.key)) :
      Explains a.Within w s'.world := by
    rw [last]
    refine .noting ?_
    rintro key ⟨⟩
    exact ⟨a, s, .refl, includes_of_runs runs found, ⟨v, by rw [ending, ok]⟩, by rw [ending, last]; rfl⟩
  dsimp only at h ⊢
  cases h with
  | lost | circular => exact .refl s.world
  | unfetched | unread => exact asked _
  | @again place nodes vars t found closed cached ran =>
    have inside : Explains a.Within s.world (inChild _ s).2.world :=
      explainsRun_within (opened (.again found closed cached))
    rw [ran] at inside
    exact inside.trans (succeeded found rfl rfl)
  | @againFailed place nodes fault t found closed cached ran =>
    have inside : Explains a.Within s.world (inChild _ s).2.world :=
      explainsRun_within (opened (.again found closed cached))
    rwa [ran] at inside
  | @anew place text nodes vars t found closed missing fetched read ran =>
    have inside : Explains a.Within (s.noting place.event).world (inFresh _ (s.noting place.event)).2.world :=
      explainsRun_within (opened (.anew found closed missing fetched read))
    rw [ran] at inside
    have kept : Explains a.Within t.world (t.world.keeping place.key nodes) := .of_trace_eq rfl
    exact (((asked place).trans inside).trans kept).trans (succeeded found rfl rfl)
  | @anewFailed place text nodes fault t found closed missing fetched read ran =>
    have inside : Explains a.Within (s.noting place.event).world (inFresh _ (s.noting place.event)).2.world :=
      explainsRun_within (opened (.anew found closed missing fetched read))
    rw [ran] at inside
    exact (asked place).trans inside

/-- **Every note of an inclusion is made by one that succeeds.** By induction on the parts of the activity:
apart from its parts, a node only calls functions and runs commands, and neither notes an inclusion. -/
theorem explains_ending (a : Activity) : Explains a.Within a.state.world a.ending.2.world := by
  induction a using induction_parts with
  | step a ih =>
    have hP := inherited_explainsRun a.Within
    have part (here statement : Bool) (b : Activity) (part : Part a here statement b) :
        ExplainsRun a.Within (b.node.evalWith b.src b.hooks) b.state := 
      (ih here statement b part).mono fun d within => .head ⟨here, statement, part⟩ within
    have parts (here : Bool) (task : Task) (t : State)
        (runs : Runs a.src a.hooks a.node a.state here task t) :
        ExplainsRun a.Within (task.run a.src a.hooks) t := by
      cases task with
      | operand m => exact part _ _ _ (.operand runs)
      | statement m => exact explainsRun_locating _ _ (part _ _ _ (.statement runs))
      | spliced m =>
        cases runs.here_of_leaves rfl
        exact inherited_splice hP fun depth room => part _ _ _ (.spliced room runs)
      | included target =>
        cases runs.here_of_leaves rfl
        exact inherited_inclusion hP fun left room => explainsRun_includeWith room runs part
    refine evalWith_of_runs hP hP (encloses_explainsRun a.Within) (fun _ _ t => .refl t.world)
      (fun _ _ _ t => .refl t.world) ?_ ?_ (parts true) (parts false)
    · intro f values t
      unfold ExplainsRun
      rw [state_call]
      exact .of_trace_eq rfl
    · intro _ c t
      unfold ExplainsRun
      rw [runCommand_apply]
      exact .noting fun key h => by cases h

end Activity

end BlockConfig
