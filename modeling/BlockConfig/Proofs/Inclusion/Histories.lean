import BlockConfig.Proofs.Inclusion.Cache
import BlockConfig.Proofs.Inclusion.Registered
import BlockConfig.Proofs.Inclusion.Successes
import Mathlib.Data.List.Induction

/-!
The cache of included documents, over whole histories.

What the cache holds at a point of a history is told by the inclusions that were made before it: a
document is there if an inclusion of it has succeeded since the cache was last cleared, and it is there
as the first of those inclusions read it (`Engine.cache_through_history`). A point is a moment between
two acts, or one in a call at which an activity begins or ends (`Engine.Point`).

Two accounts of the past are put together for this. One is the trace: between two clearings the cache
holds what is noted in it (`Moment.Lawful`), and of every activity it tells what was noted before it
and after it. The other one are the activities: every note is made by an inclusion that succeeds, and
every inclusion that succeeds makes one. That the first note of a document and its first success are
the same thing is the rest of the proof.
-/

set_option autoImplicit false

namespace BlockConfig

namespace Moment

variable {base before : List Event} {m m' : Moment} {key : String} {nodes : List Node}

/-- What has happened since the cache was last cleared is the end of the trace. -/
def Tracks (base : List Event) (m : Moment) : Prop :=
  m.world.trace = base ++ m.since.map Prod.snd

/-- Steps add to what has happened what they add to the trace. -/
theorem Path.tracks_iff {opened : List String} (path : Path opened m m') :
    Tracks base m' ↔ Tracks base m := by
  obtain ⟨events, htrace, hsince, -⟩ := path.grows
  have same : (events.map fun event => (m.world.host, event)).map Prod.snd = events := by
    rw [List.map_map]
    exact List.map_id events
  unfold Tracks
  rw [htrace, hsince, List.map_append, same, ← List.append_assoc, List.append_left_inj]

/-- A document that is in the cache has been noted since the cache was cleared, and so there is a first
note of it. -/
theorem Lawful.first_note (h : m.Lawful) (tracks : Tracks base m)
    (cached : m.cached? key = some nodes) :
    ∃ events, Event.included key ∉ events ∧ base ++ events ++ [.included key] <+: m.world.trace := by
  obtain ⟨before, host, after, text, hsince, hfirst, -⟩ := (h.first key nodes).1 cached
  refine ⟨before.map Prod.snd, fun hmem => ?_, ?_⟩
  · obtain ⟨entry, hentry, same⟩ := List.mem_map.1 hmem
    exact hfirst entry hentry same
  · unfold Tracks at tracks
    rw [tracks, hsince]
    exact ⟨after.map Prod.snd, by simp⟩

/-- A document that has been noted since the cache was cleared is in the cache. -/
theorem Lawful.cached_of_note (h : m.Lawful) (tracks : Tracks base m) (start : base <+: before)
    (here : before ++ [.included key] <+: m.world.trace) : ∃ nodes, m.cached? key = some nodes := by
  obtain ⟨events, rfl⟩ := start
  obtain ⟨rest, same⟩ := here
  unfold Tracks at tracks
  rw [tracks, List.append_assoc, List.append_assoc] at same
  have hmem : Event.included key ∈ m.since.map Prod.snd := by
    rw [← List.append_cancel_left same]
    simp
  obtain ⟨⟨host, event⟩, hentry, rfl⟩ := List.mem_map.1 hmem
  exact (h.included key).2 ⟨host, hentry⟩

/-- No note of a document comes before the first one. -/
theorem prefix_of_first {events whole : List Event} {note : Event} (first : note ∉ events)
    (here : base ++ events ++ [note] <+: whole) (start : base <+: before)
    (here' : before ++ [note] <+: whole) : base ++ events <+: before := by
  have shorter : base ++ events <+: whole := (List.prefix_append _ _).trans here
  rcases Nat.lt_or_ge before.length (base ++ events).length with early | late
  · have inside : before ++ [note] <+: base ++ events :=
      List.prefix_of_prefix_length_le here' shorter (by simpa using Nat.succ_le_of_lt early)
    obtain ⟨middle, rfl⟩ := start
    rw [List.append_assoc, List.prefix_append_right_inj] at inside
    exact absurd (inside.subset (List.mem_append_right _ (List.mem_singleton_self _))) first
  · exact List.prefix_of_prefix_length_le shorter ((List.prefix_append _ _).trans here') late

end Moment

namespace Engine

open Eval Activity Moment

variable {e : Engine} {w w' : World} {c : Call} {a b : Activity} {s : State} {key : String}

/-! ## 1. The activities of a call -/

theorem InCall.part {here statement : Bool} (h : e.InCall w c a) (part : Part a here statement b) :
    e.InCall w c b := by
  obtain ⟨first, begins, within⟩ := h
  exact ⟨first, begins, within.tail ⟨here, statement, part⟩⟩

/-- What a call begins, it begins after steps, and what is left by it lasts until the end of the call. -/
theorem Begins.leads (h : e.Begins w c a) :
    (∀ since, ∃ since', Path [] ⟨w, since⟩ ⟨a.state.world, since'⟩) ∧
      a.ending.2.world.Later (e.perform w c) := by
  rcases e.perform_cases w c with ⟨-, none⟩ | ⟨src, nodes, -, same, begun⟩ | ⟨src, n, scope, -, same, begun⟩
  · exact absurd h (none a)
  · rw [same]
    exact ((begun a).1 h).leads
  · rw [same, (begun a).1 h]
    refine ⟨fun since => ⟨since, .refl⟩, ?_⟩
    exact later_bind (fun v => (pervasive_proceeds []).congruence.ofExcept _) (.refl _)

/-- An activity of a call begins after steps of it. -/
theorem InCall.leads (h : e.InCall w c b) (since : List Happening) :
    ∃ since', Path [] ⟨w, since⟩ ⟨b.state.world, since'⟩ := by
  obtain ⟨a, begins, within⟩ := h
  obtain ⟨since₁, path⟩ := begins.leads.1 since
  obtain ⟨since₂, path'⟩ := Within.leads within since₁
  exact ⟨since₂, path.trans path'⟩

/-- What an activity of a call leaves lasts until the end of the call. -/
theorem InCall.lasts (h : e.InCall w c b) : b.ending.2.world.Later (e.perform w c) := by
  obtain ⟨a, begins, within⟩ := h
  exact (Within.lasts within).trans begins.leads.2

/-- **Every note of an inclusion in a call** is made by one of its activities that succeeds. A call that
runs a document has one activity for each statement, and one that evaluates a node has one. -/
theorem explains_perform (e : Engine) (w : World) (c : Call) :
    Explains (e.InCall w c) w (e.perform w c) := by
  have begun {a : Activity} (h : e.Begins w c a) :
      Explains (e.InCall w c) a.state.world a.ending.2.world :=
    a.explains_ending.mono fun b within => ⟨a, h, within⟩
  rcases e.perform_cases w c with ⟨same, -⟩ | ⟨src, nodes, -, same, hbegun⟩ | ⟨src, n, scope, -, same, hbegun⟩
  · rw [same]
    exact .refl w
  · rw [same]
    have run : ExplainsRun (e.InCall w c) (Source.runWithin (w.reach + 1) src nodes) ⟨.root [], w⟩ :=
      (inherited_explainsRun _).evalStatements fun m t turn =>
        explainsRun_locating _ _ (begun ((hbegun _).2 (.intro turn)))
    exact run
  · rw [same]
    have evaluated : ExplainsRun (e.InCall w c) (n.eval src) ⟨scope, w⟩ := begun ((hbegun _).2 rfl)
    have value : ExplainsRun (e.InCall w c) (n.evalValue src) ⟨scope, w⟩ :=
      (inherited_explainsRun _).bind evaluated fun v t _ =>
        (inherited_explainsRun _).ofExcept (v.plain_unwrapCall n) t
    exact value

/-! ## 2. Points and inclusions of a history -/

/-- The worlds that a history, from a new engine on, goes through in the end: the one after its last act,
and those in which an activity of its last call has begun or ended. -/
inductive Point (e : Engine) (w : World) : List Act → World → Prop
  | between (acts : List Act) : Point e w acts (e.history (beginning w) acts).world
  | begins {acts : List Act} {c : Call} {b : Activity}
    (made : e.InCall (e.history (beginning w) acts).world c b) :
    Point e w (acts ++ [.call c]) b.state.world
  | ends {acts : List Act} {c : Call} {b : Activity}
    (made : e.InCall (e.history (beginning w) acts).world c b) :
    Point e w (acts ++ [.call c]) b.ending.2.world

/-- An inclusion of a document in a history that succeeds. The cache has not been cleared since then. -/
inductive Success (e : Engine) (w : World) (key : String) : List Act → Activity → State → Prop
  | now {acts : List Act} {c : Call} {b : Activity} {s : State}
    (made : e.InCall (e.history (beginning w) acts).world c b) (includes : b.IsInclusion key s)
    (succeeds : b.Succeeds) : Success e w key (acts ++ [.call c]) b s
  | before {acts : List Act} {act : Act} {b : Activity} {s : State} (earlier : Success e w key acts b s)
    (kept : act ≠ .clear) : Success e w key (acts ++ [act]) b s

/-- The first of them. That one inclusion has ended before another one shows in the trace, to which every
success adds a note. -/
def FirstSuccess (e : Engine) (w : World) (key : String) (acts : List Act) (b : Activity) (s : State) :
    Prop :=
  Success e w key acts b s ∧ ∀ b' s', Success e w key acts b' s' →
    b.ending.2.world.trace <+: b'.ending.2.world.trace

theorem history_concat (e : Engine) (m : Moment) (acts : List Act) (act : Act) :
    e.history m (acts ++ [act]) = e.after (e.history m acts) act := by
  unfold history
  rw [List.foldl_append]
  rfl

theorem Act.call_ne_clear (c : Call) : Act.call c ≠ .clear := by
  intro h
  cases h

variable {acts : List Act} {act : Act} {base : List Event} {p : World}

theorem lawful_of_history (e : Engine) (w : World) (acts : List Act) :
    (e.history (beginning w) acts).Lawful :=
  lawful_history (.empty w) acts

/-- Unless the cache is cleared, an act only adds to what has happened. -/
theorem tracks_concat (h : Tracks base (e.history (beginning w) (acts ++ [act]))) (kept : act ≠ .clear) :
    Tracks base (e.history (beginning w) acts) := by
  rw [history_concat] at h
  cases act with
  | clear => exact absurd rfl kept
  | surroundings host => exact h
  | call c => exact (e.path_after_call _ c).tracks_iff.1 h

/-- At any time in a history there is a point since which the notes tell what the cache holds: the last time
that it was cleared, or the beginning. -/
theorem exists_tracks (e : Engine) (w : World) (acts : List Act) :
    ∃ base, Tracks base (e.history (beginning w) acts) := by
  induction acts using List.reverseRecOn with
  | nil => exact ⟨w.trace, (List.append_nil _).symm⟩
  | append_singleton acts act ih =>
    obtain ⟨base, tracks⟩ := ih
    rw [history_concat]
    cases act with
    | call c => exact ⟨base, (e.path_after_call _ c).tracks_iff.2 tracks⟩
    | clear => exact ⟨_, (List.append_nil _).symm⟩
    | surroundings host => exact ⟨base, tracks⟩

/-! ### The past of a point -/

/-- A world at which the cache holds what has been noted since it was cleared. -/
def Known (base : List Event) (w : World) : Prop :=
  ∃ since, Lawful ⟨w, since⟩ ∧ Tracks base ⟨w, since⟩

theorem known_history (tracks : Tracks base (e.history (beginning w) acts)) :
    Known base (e.history (beginning w) acts).world :=
  ⟨_, e.lawful_of_history w acts, tracks⟩

/-- Where activities of a call begin and end, the past is known. -/
theorem InCall.known (h : Known base w) (made : e.InCall w c b) :
    Known base b.state.world ∧ Known base b.ending.2.world := by
  obtain ⟨since, lawful, tracks⟩ := h
  obtain ⟨since₁, path⟩ := made.leads since
  obtain ⟨since₂, path'⟩ := b.leads_ending since₁
  have whole : Path [] ⟨w, since⟩ ⟨b.ending.2.world, since₂⟩ := path.trans path'
  exact ⟨⟨since₁, lawful.path path, path.tracks_iff.2 tracks⟩,
    since₂, lawful.path whole, whole.tracks_iff.2 tracks⟩

theorem after_call (e : Engine) (w : World) (acts : List Act) (c : Call) :
    (e.history (beginning w) (acts ++ [.call c])).world =
      e.perform (e.history (beginning w) acts).world c := by
  rw [history_concat]
  rfl

/-- **The past of every point** of a history is known, and what is there lasts until the end of it. Between
the calls this is a fact about histories, and within a call one about the activity it is in. -/
theorem Point.known (h : e.Point w acts p) (tracks : Tracks base (e.history (beginning w) acts)) :
    Known base p ∧ p.Later (e.history (beginning w) acts).world := by
  cases h with
  | between => exact ⟨known_history tracks, .refl _⟩
  | @begins _ c b made =>
    have known := InCall.known (known_history (tracks_concat tracks (Act.call_ne_clear _))) made
    rw [after_call]
    exact ⟨known.1, b.leads_ending.later.trans made.lasts⟩
  | ends made =>
    have known := InCall.known (known_history (tracks_concat tracks (Act.call_ne_clear _))) made
    rw [after_call]
    exact ⟨known.2, made.lasts⟩

namespace Success

/-- It stays one as long as the cache is not cleared. -/
theorem append {later : List Act} (h : e.Success w key acts b s) (uncleared : .clear ∉ later) :
    e.Success w key (acts ++ later) b s := by
  induction later using List.reverseRecOn with
  | nil => rwa [List.append_nil]
  | append_singleton later act ih =>
    rw [List.mem_append, not_or, List.mem_singleton] at uncleared
    rw [← List.append_assoc]
    exact .before (ih uncleared.1) fun h => uncleared.2 h.symm

theorem includes (h : e.Success w key acts b s) : b.IsInclusion key s ∧ b.Succeeds := by
  induction h with
  | now made includes succeeds => exact ⟨includes, succeeds⟩
  | before _ _ ih => exact ih

/-- What a success leaves lasts as long as the cache is not cleared. -/
theorem later (h : e.Success w key acts b s) :
    b.ending.2.world.Later (e.history (beginning w) acts).world := by
  induction h with
  | now made includes succeeds =>
    rw [after_call]
    exact made.lasts
  | @before acts act b s earlier kept ih =>
    rw [history_concat]
    cases act with
    | call c => exact ih.trans (e.path_after_call _ c).later
    | clear => exact absurd rfl kept
    | surroundings host => exact ⟨ih.trace, ih.kept⟩

/-- When the document is looked for, the past is known. -/
theorem known (h : e.Success w key acts b s) (tracks : Tracks base (e.history (beginning w) acts)) :
    Known base s.world := by
  induction h with
  | now made includes succeeds =>
    obtain ⟨d, here, statement, part, rfl⟩ := includes.exists_part
    exact (InCall.known (known_history (tracks_concat tracks (Act.call_ne_clear _))) (made.part part)).2
  | before _ kept ih => exact ih (tracks_concat tracks kept)

end Success

/-- With nothing having happened since the cache was cleared there is no note. -/
theorem not_noted {before : List Event} {m : Moment} (nothing : m.since = []) (tracks : Tracks base m)
    (start : base <+: before) : ¬ before ++ [Event.included key] <+: m.world.trace := by
  intro here
  unfold Tracks at tracks
  rw [nothing, List.map_nil, List.append_nil] at tracks
  rw [tracks] at here
  have := start.length_le
  have := here.length_le
  rw [List.length_append, List.length_singleton] at this
  omega

/-- **Every note of an inclusion** since the cache was cleared is made by one that succeeds. By induction on
the acts: the note was made before the last of them, or that is a call and it was made in it. -/
theorem success_of_note {before : List Event} (tracks : Tracks base (e.history (beginning w) acts))
    (start : base <+: before)
    (here : before ++ [.included key] <+: (e.history (beginning w) acts).world.trace) :
    ∃ b s, e.Success w key acts b s ∧ b.ending.2.world.trace = before ++ [.included key] := by
  induction acts using List.reverseRecOn with
  | nil => exact absurd here (not_noted rfl tracks start)
  | append_singleton acts act ih =>
    have earlier (kept : act ≠ .clear)
        (here : before ++ [.included key] <+: (e.history (beginning w) acts).world.trace) :
        ∃ b s, e.Success w key (acts ++ [act]) b s ∧
          b.ending.2.world.trace = before ++ [.included key] := by
      obtain ⟨b, s, success, same⟩ := ih (tracks_concat tracks kept) here
      exact ⟨b, s, .before success kept, same⟩
    cases act with
    | clear =>
      rw [history_concat] at tracks here
      exact absurd here (not_noted rfl tracks start)
    | surroundings host =>
      rw [history_concat] at here
      exact earlier (fun h => by cases h) here
    | call c =>
      have explains := e.explains_perform (e.history (beginning w) acts).world c
      rw [after_call] at here
      -- The note was made before the call or in it.
      rcases Nat.lt_or_ge before.length (e.history (beginning w) acts).world.trace.length with
        early | late
      · refine earlier (Act.call_ne_clear c) (List.prefix_of_prefix_length_le here explains.grows ?_)
        simpa using Nat.succ_le_of_lt early
      · have inside := List.prefix_of_prefix_length_le explains.grows
          ((List.prefix_append _ _).trans here) late
        obtain ⟨b, s, made, includes, succeeds, same⟩ := explains.noted inside here
        exact ⟨b, s, .now made includes succeeds, same⟩

/-! ## 3. What the cache holds -/

namespace Success

/-- A success is noted where it ends, after all that was known when the document was looked for. -/
theorem noted (h : e.Success w key acts b s) (tracks : Tracks base (e.history (beginning w) acts)) :
    ∃ before, base <+: s.world.trace ∧ s.world.trace <+: before ∧
      b.ending.2.world.trace = before ++ [.included key] ∧
      before ++ [.included key] <+: (e.history (beginning w) acts).world.trace := by
  obtain ⟨since, -, tracked⟩ := h.known tracks
  obtain ⟨includes, v, ok⟩ := h.includes
  obtain ⟨before, looked, ended⟩ := includes.outcome.noted ok
  exact ⟨before, ⟨_, tracked.symm⟩, looked, ended, ended ▸ h.later.trace⟩

variable {events : List Event}

/-- The success behind the first note of a document is the first one. -/
theorem first (h : e.Success w key acts b s) (tracks : Tracks base (e.history (beginning w) acts))
    (first : Event.included key ∉ events)
    (same : b.ending.2.world.trace = base ++ events ++ [.included key]) :
    e.FirstSuccess w key acts b s := by
  refine ⟨h, fun b' s' success => ?_⟩
  obtain ⟨before, start, looked, ended, here⟩ := success.noted tracks
  have whole : base ++ events ++ [.included key] <+: (e.history (beginning w) acts).world.trace :=
    same ▸ h.later.trace
  have earlier := prefix_of_first first whole (start.trans looked) here
  rw [same, ended]
  refine List.prefix_of_prefix_length_le whole here ?_
  rw [List.length_append, @List.length_append _ before]
  exact Nat.add_le_add_right earlier.length_le _

/-- When the document that is noted first was looked for, it was not in the cache. -/
theorem missing (h : e.Success w key acts b s) (tracks : Tracks base (e.history (beginning w) acts))
    (first : Event.included key ∉ events)
    (same : b.ending.2.world.trace = base ++ events ++ [.included key]) :
    Table.find? s.world.cache key = none := by
  cases hit : Table.find? s.world.cache key with
  | none => rfl
  | some nodes =>
    -- Then there would be a note of it already, and so the first one would come before itself.
    obtain ⟨since, lawful, tracked⟩ := h.known tracks
    obtain ⟨events', -, here'⟩ := lawful.first_note tracked hit
    obtain ⟨before, -, looked, ended, here⟩ := h.noted tracks
    have before_eq : before = base ++ events := List.append_cancel_right (ended.symm.trans same)
    subst before_eq
    have inside := here'.trans looked
    have earlier := prefix_of_first first here (List.prefix_append base events')
      ((inside.trans (List.prefix_append _ _)).trans here)
    have short := inside.length_le
    have long := earlier.length_le
    rw [List.length_append, List.length_singleton] at short
    omega

end Success

/-- A document in the cache at a point of a history has been included for the first time, and when this was
done it was read from the text that was fetched. -/
theorem exists_firstSuccess {nodes : List Node} (point : e.Point w acts p)
    (cached : Table.find? p.cache key = some nodes) :
    ∃ b s text, e.FirstSuccess w key acts b s ∧ b.ending.2.world.trace <+: p.trace ∧
      Fetches key text s b.ending.2 ∧ Node.parse text key = .ok nodes := by
  obtain ⟨base, tracks⟩ := e.exists_tracks w acts
  obtain ⟨⟨since, lawful, tracked⟩, later⟩ := point.known tracks
  obtain ⟨events, first, here⟩ := lawful.first_note tracked cached
  obtain ⟨b, s, success, same⟩ :=
    success_of_note tracks (List.prefix_append _ _) (here.trans later.trace)
  obtain ⟨includes, v, ok⟩ := success.includes
  obtain ⟨text, nodes', fetches, read, kept⟩ :=
    includes.outcome.miss (success.missing tracks first same) ok
  -- Both entries are there in the end.
  have both : some nodes' = some nodes := (success.later.kept kept).symm.trans (later.kept cached)
  cases both
  exact ⟨b, s, text, success.first tracks first same, same ▸ here, fetches, read⟩

/-- A document that has been noted by a point of a history is in the cache there, as it is in the end. -/
theorem cached_of_success (point : e.Point w acts p) (success : e.Success w key acts b s)
    (ended : b.ending.2.world.trace <+: p.trace) : ∃ nodes, Table.find? p.cache key = some nodes ∧
      Table.find? (e.history (beginning w) acts).world.cache key = some nodes := by
  obtain ⟨base, tracks⟩ := e.exists_tracks w acts
  obtain ⟨⟨since, lawful, tracked⟩, later⟩ := point.known tracks
  obtain ⟨before, start, looked, same, -⟩ := success.noted tracks
  rw [same] at ended
  obtain ⟨nodes, cached⟩ := lawful.cached_of_note tracked (start.trans looked) ended
  exact ⟨nodes, cached, later.kept cached⟩

/-- A success that fetched the document leaves it as it was read. -/
theorem cached_of_fetches {text : String} {nodes : List Node} (success : e.Success w key acts b s)
    (fetches : Fetches key text s b.ending.2) (read : Node.parse text key = .ok nodes) :
    Table.find? (e.history (beginning w) acts).world.cache key = some nodes := by
  obtain ⟨includes, v, ok⟩ := success.includes
  obtain ⟨hat, events, htrace, -⟩ := fetches
  cases hit : Table.find? s.world.cache key with
  | some nodes' =>
    -- What is in the cache is not fetched.
    obtain ⟨-, events', htrace', quiet⟩ := includes.outcome.hit hit
    rw [htrace', List.append_cancel_left_eq] at htrace
    exact absurd (htrace ▸ List.mem_cons_self) quiet
  | none =>
    obtain ⟨text', nodes', ⟨hat', -⟩, read', kept⟩ := includes.outcome.miss hit ok
    cases Except.ok.inj (hat.symm.trans hat')
    cases Except.ok.inj (read.symm.trans read')
    exact success.later.kept kept

/-- **The cache through every history.** Whatever calls, clearings and changes of the surroundings there
have been since an engine was new, at every point between two acts and in every call: a document is in the
cache if and only if an inclusion of it has succeeded since the cache was last cleared, and what is there is
what the first of those read from the text that it fetched. Until the cache is cleared an entry stays as it
is. And an inclusion of what is in the cache fetches nothing, one that succeeds leaves its document in the
cache, and one that fails leaves the entry as it was. -/
theorem cache_through_history (e : Engine) (w : World) :
    (∀ acts p, e.Point w acts p → ∀ key nodes, Table.find? p.cache key = some nodes ↔
      ∃ b s text, e.FirstSuccess w key acts b s ∧ b.ending.2.world.trace <+: p.trace ∧
        Fetches key text s b.ending.2 ∧ Node.parse text key = .ok nodes) ∧
    (∀ acts later p q, e.Point w acts p → .clear ∉ later → e.Point w (acts ++ later) q →
      p.trace <+: q.trace → ∀ key nodes, Table.find? p.cache key = some nodes →
        Table.find? q.cache key = some nodes) ∧
    ∀ acts c b key s, e.InCall (e.history (beginning w) acts).world c b → b.IsInclusion key s →
      Outcome key s b.ending.1 b.ending.2 := by
  have known (acts : List Act) (p : World) (point : e.Point w acts p) (key : String)
      (nodes : List Node) : Table.find? p.cache key = some nodes ↔
      ∃ b s text, e.FirstSuccess w key acts b s ∧ b.ending.2.world.trace <+: p.trace ∧
        Fetches key text s b.ending.2 ∧ Node.parse text key = .ok nodes := by
    refine ⟨exists_firstSuccess point, ?_⟩
    rintro ⟨b, s, text, ⟨success, -⟩, ended, fetches, read⟩
    obtain ⟨nodes', cached, final⟩ := cached_of_success point success ended
    rwa [← final.symm.trans (cached_of_fetches success fetches read)]
  refine ⟨known, ?_, fun _ _ b key s _ includes => includes.outcome⟩
  intro acts later p q hp uncleared hq before key nodes cached
  obtain ⟨b, s, text, ⟨success, -⟩, ended, fetches, read⟩ := (known acts p hp key nodes).1 cached
  obtain ⟨nodes', cached', final⟩ :=
    cached_of_success hq (success.append uncleared) (ended.trans before)
  rwa [← final.symm.trans (cached_of_fetches (success.append uncleared) fetches read)]

/-! ## 4. A history -/

/-- An inclusion of the document with an address. -/
def including (url : String) : Node :=
  .inclusion (.literal (.str url '"' none)) ⟨1, 1⟩

/-- A call that does nothing but include a document ends as the inclusion does. -/
theorem perform_including {url : String} {r : Except Fault Value} {s : State}
    (plain : Piece.beforeHole url.toList = (url.toList, none))
    (h : Included (Source.runWithin w.reach) (e.inline w.host) url ⟨.root [], w⟩ r s) :
    e.perform w (.document [including url]) = s.world := by
  let src := e.inline w.host
  let hooks := Hooks.atDepth (src.includeWithin (w.reach + 1)) src (longestTextAll [including url])
  have ending : (including url).evalWith src hooks ⟨.root [], w⟩ = (r, s) := by
    unfold including
    rw [evalWith_inclusion (evalWith_plainText plain _) rfl, Source.includeWithin_succ, includeWith_eq h]
  have ran : (src.run [including url] ⟨.root [], w⟩).2 =
      (locating src.file (including url).pos? ((including url).evalWith src hooks) ⟨.root [], w⟩).2 :=
    state_map _ (fun _ => ()) _
  show (evalDocument src [including url] w).2 = s.world
  rw [world_evalDocument, ran, state_locating, ending]

/-- A document that assigns a number. -/
def assigning (i : Int64) : List Node :=
  [.assign ⟨"a", ⟨1, 1⟩⟩ (.literal (.int i)) .equals]

/-- A document that divides by zero. -/
def dividing : List Node :=
  [.assign ⟨"b", ⟨1, 1⟩⟩ (.binary .div (.literal (.int 1)) (.literal (.int 0))) .equals]

/-- Surroundings in which the two can be had, the first one as a text. -/
def offering (text : String) : Host :=
  ⟨⟨[], []⟩, "/", [("http://x/d", text), ("http://x/f", "b = 1 / 0")], []⟩

/-- The two documents of the example, as they are read. -/
theorem parse_assigning : Node.parse "a = 1" "http://x/d" = .ok (assigning 1) ∧
    Node.parse "a = 2" "http://x/d" = .ok (assigning 2) := by
  have one : Token.list "a = 1".toList = .ok [⟨.ident, "a", ⟨1, 1⟩, none, none⟩,
      ⟨.assign, "=", ⟨1, 3⟩, none, none⟩, ⟨.number, "1", ⟨1, 5⟩, none, none⟩, .endOfInput ⟨1, 6⟩] := by
    refine Token.listFrom_step rfl rfl rfl ?_
    refine Token.listFrom_step rfl rfl rfl ?_
    refine Token.listFrom_step rfl rfl rfl ?_
    exact Token.listFrom_nil _
  have two : Token.list "a = 2".toList = .ok [⟨.ident, "a", ⟨1, 1⟩, none, none⟩,
      ⟨.assign, "=", ⟨1, 3⟩, none, none⟩, ⟨.number, "2", ⟨1, 5⟩, none, none⟩, .endOfInput ⟨1, 6⟩] := by
    refine Token.listFrom_step rfl rfl rfl ?_
    refine Token.listFrom_step rfl rfl rfl ?_
    refine Token.listFrom_step rfl rfl rfl ?_
    exact Token.listFrom_nil _
  exact ⟨Rule.readText_ok_iff.2 ⟨_, ⟨1, [.endOfInput ⟨1, 6⟩]⟩, one, rfl⟩,
    Rule.readText_ok_iff.2 ⟨_, ⟨1, [.endOfInput ⟨1, 6⟩]⟩, two, rfl⟩⟩

/-- The document of the example that fails, as it is read. -/
theorem parse_dividing : Node.parse "b = 1 / 0" "http://x/f" = .ok dividing := by
  have tokens : Token.list "b = 1 / 0".toList = .ok [⟨.ident, "b", ⟨1, 1⟩, none, none⟩,
      ⟨.assign, "=", ⟨1, 3⟩, none, none⟩, ⟨.number, "1", ⟨1, 5⟩, none, none⟩,
      ⟨.slash, "/", ⟨1, 7⟩, none, none⟩, ⟨.number, "0", ⟨1, 9⟩, none, none⟩, .endOfInput ⟨1, 10⟩] := by
    refine Token.listFrom_step rfl rfl rfl ?_
    refine Token.listFrom_step rfl rfl rfl ?_
    refine Token.listFrom_step rfl rfl rfl ?_
    refine Token.listFrom_step rfl rfl rfl ?_
    refine Token.listFrom_step rfl rfl rfl ?_
    exact Token.listFrom_nil _
  exact Rule.readText_ok_iff.2 ⟨_, ⟨1, [.endOfInput ⟨1, 10⟩]⟩, tokens, rfl⟩

/-- An engine that can do nothing but read documents. -/
def reader : Engine :=
  ⟨.default, [], fun _ _ => .error "no commands"⟩

/-- The world in which it is used first. -/
def untouched : World :=
  ⟨offering "a = 1", .fresh, [], []⟩

/-- The document is included for the first time. -/
def firstActs : List Act :=
  [.call (.document [including "http://x/d"])]

/-- The surroundings have another text for it, it is included again, and the document that divides by zero
is included. -/
def staleActs : List Act :=
  [.surroundings (offering "a = 2"), .call (.document [including "http://x/d"]),
    .call (.document [including "http://x/f"])]

/-- The cache is cleared, and the first document is included once more. -/
def freshActs : List Act :=
  [.clear, .call (.document [including "http://x/d"])]

/-- The world after the document has been included for the first time. -/
def firstWorld : World :=
  ⟨offering "a = 1", .fresh, [("http://x/d", assigning 1)],
    [.remote "http://x/d", .included "http://x/d"]⟩

/-- The world after the failure. -/
def staleWorld : World :=
  ⟨offering "a = 2", .fresh, [("http://x/d", assigning 1)], firstWorld.trace ++
    [.included "http://x/d", .remote "http://x/f"]⟩

theorem perform_first : reader.perform untouched (.document [including "http://x/d"]) = firstWorld := by
  have found : (reader.inline untouched.host).find untouched.host "http://x/d" =
      .ok (.remote "http://x/d") := rfl
  have ran : inFresh (Source.runWithin untouched.reach
        ((reader.inline untouched.host).nested "http://x/d" "http://x/d") (assigning 1))
        (State.noting ⟨.root [], untouched⟩ (.remote "http://x/d")) =
      (.ok [("a", .int 1)], ⟨.root [], untouched.noting (.remote "http://x/d")⟩) := rfl
  exact perform_including rfl (.anew found List.not_mem_nil rfl rfl parse_assigning.1 ran)

/-- With the file changed the inclusion still gives what was read first. -/
theorem perform_stale :
    let w : World := { firstWorld with host := offering "a = 2" }
    let w' := w.noting (.included "http://x/d")
    reader.perform w (.document [including "http://x/d"]) = w' ∧
      reader.perform w' (.document [including "http://x/f"]) = staleWorld := by
  intro w w'
  have found : (reader.inline w.host).find w.host "http://x/d" = .ok (.remote "http://x/d") := rfl
  have ran : inChild (Source.runWithin w.reach
        ((reader.inline w.host).nested "http://x/d" "http://x/d") (assigning 1)) ⟨.root [], w⟩ =
      (.ok [("a", .int 1)], ⟨.root [], w⟩) := rfl
  have found' : (reader.inline w'.host).find w'.host "http://x/f" = .ok (.remote "http://x/f") := rfl
  have ran' : inFresh (Source.runWithin w'.reach
        ((reader.inline w'.host).nested "http://x/f" "http://x/f") dividing)
        (State.noting ⟨.root [], w'⟩ (.remote "http://x/f")) =
      (.error (.error (.located "http://x/f" ⟨1, 1⟩ .divisionByZero)),
        ⟨.root [], w'.noting (.remote "http://x/f")⟩) := rfl
  exact ⟨perform_including rfl (.again found List.not_mem_nil rfl ran),
    perform_including rfl (.anewFailed found' List.not_mem_nil rfl rfl parse_dividing ran')⟩

/-- After clearing the cache the new text is read. -/
theorem perform_fresh :
    let w : World := { staleWorld with cache := [] }
    (reader.perform w (.document [including "http://x/d"])).cache = [("http://x/d", assigning 2)] := by
  intro w
  have found : (reader.inline w.host).find w.host "http://x/d" = .ok (.remote "http://x/d") := rfl
  have ran : inFresh (Source.runWithin w.reach
        ((reader.inline w.host).nested "http://x/d" "http://x/d") (assigning 2))
        (State.noting ⟨.root [], w⟩ (.remote "http://x/d")) =
      (.ok [("a", .int 2)], ⟨.root [], w.noting (.remote "http://x/d")⟩) := rfl
  rw [perform_including rfl (.anew found List.not_mem_nil rfl rfl parse_assigning.2 ran)]
  rfl

/-- The text of a document changes and another one fails, and then the cache is cleared. -/
theorem cache_through_history_stale :
    let stale := (reader.history (beginning untouched) (firstActs ++ staleActs)).world
    let fresh := (reader.history (beginning untouched) (firstActs ++ staleActs ++ freshActs)).world
    stale.host.textAt (.ofKey "http://x/d") = .ok "a = 2" ∧
      Table.find? stale.cache "http://x/d" = some (assigning 1) ∧
      Table.find? stale.cache "http://x/f" = none ∧
      Table.find? fresh.cache "http://x/d" = some (assigning 2) ∧
      (∃ b s text, reader.FirstSuccess untouched "http://x/d" (firstActs ++ staleActs) b s ∧
        Fetches "http://x/d" text s b.ending.2 ∧ Node.parse text "http://x/d" = .ok (assigning 1)) ∧
      (¬ ∃ b s text nodes, reader.FirstSuccess untouched "http://x/f" (firstActs ++ staleActs) b s ∧
        b.ending.2.world.trace <+: stale.trace ∧ Fetches "http://x/f" text s b.ending.2 ∧
        Node.parse text "http://x/f" = .ok nodes) ∧
      ∃ b s text, reader.FirstSuccess untouched "http://x/d" (firstActs ++ staleActs ++ freshActs) b s ∧
        Fetches "http://x/d" text s b.ending.2 ∧ Node.parse text "http://x/d" = .ok (assigning 2) := by
  intro stale fresh
  -- The calls are evaluated once and for all by the lemmas above; what follows is about worlds.
  have hfirst : (reader.history (beginning untouched) firstActs).world = firstWorld := perform_first
  have hstale : stale = staleWorld := by
    have calls : stale = reader.perform (reader.perform
        { reader.perform untouched (.document [including "http://x/d"]) with host := offering "a = 2" }
        (.document [including "http://x/d"])) (.document [including "http://x/f"]) := rfl
    rw [calls, perform_first, perform_stale.1, perform_stale.2]
  have hfresh : fresh.cache = [("http://x/d", assigning 2)] := by
    have call : fresh =
        reader.perform { stale with cache := [] } (.document [including "http://x/d"]) := rfl
    rw [call, hstale]
    exact perform_fresh
  obtain ⟨known, kept, -⟩ := cache_through_history reader untouched
  have first : Table.find? (reader.history (beginning untouched) firstActs).world.cache "http://x/d" =
      some (assigning 1) := by
    rw [hfirst]
    rfl
  -- The second part of the theorem: no clearing in between, so the entry has been kept although the
  -- host offers another text by now.
  have still : Table.find? stale.cache "http://x/d" = some (assigning 1) := by
    refine kept firstActs staleActs _ _ (.between _) ?_ (.between _) ?_ _ _ first
    · simp [staleActs]
    · rw [hfirst]
      show _ <+: stale.trace
      rw [hstale]
      exact List.prefix_append _ _
  have again : Table.find? fresh.cache "http://x/d" = some (assigning 2) := by
    rw [hfresh]
    rfl
  have failed : Table.find? stale.cache "http://x/f" = none := by
    rw [hstale]
    rfl
  refine ⟨by rw [hstale]; rfl, still, failed, again, ?_, ?_, ?_⟩
  -- The first part, at the end of the stale history and again at the end of the fresh one.
  · obtain ⟨b, s, text, success, -, rest⟩ := (known _ _ (.between _) _ _).1 still
    exact ⟨b, s, text, success, rest⟩
  · rintro ⟨b, s, text, nodes, included⟩
    have cached := (known _ _ (.between _) _ nodes).2 ⟨b, s, text, included⟩
    exact absurd (failed.symm.trans cached) (by simp)
  · obtain ⟨b, s, text, success, -, rest⟩ := (known _ _ (.between _) _ _).1 again
    exact ⟨b, s, text, success, rest⟩

end Engine

end BlockConfig
