import BlockConfig.Engine
import BlockConfig.Proofs.Inclusion.Lasting

/-!
The cache of included documents, from call to call.

An engine is used call after call; between two calls its cache may be cleared, and its surroundings may
change (`Engine.Act`). The cache is to hold what was included since it was last cleared: under each key
the document as it was read from the text that was fetched when it was first included
(`Moment.Lawful`). Every single step of an evaluation keeps this (`Moment.Lawful.step`). A step that
puts a document into the cache is where it is the first inclusion, because what has been included is in
the cache already; and what it was read from is what was last fetched for it, because a document is not
asked for again while it is open.

Here an inclusion is what is noted in the trace. Which activities of a call are behind the notes is said
in `BlockConfig.Proofs.Inclusion.Histories`; what belongs to a call is `Engine.InCall`.
-/

set_option autoImplicit false

namespace BlockConfig

/-! ## 1. What the cache is to hold -/

/-- The document as it was read when it was first included: from the text that was fetched for it last
before that, in the same surroundings. -/
def FirstIncluded (since : List Happening) (key : String) (nodes : List Node) : Prop :=
  ∃ before h after text, since = before ++ (h, .included key) :: after ∧
    (∀ entry ∈ before, entry.2 ≠ .included key) ∧
    Fetched before key h text ∧ Node.parse text key = .ok nodes

section

variable {since : List Happening} {key : String} {nodes nodes' : List Node}

/-- What happens later does not change what was included first. -/
theorem FirstIncluded.append (h : FirstIncluded since key nodes) (more : List Happening) :
    FirstIncluded (since ++ more) key nodes := by
  obtain ⟨before, host, after, text, rfl, hfirst, hfetched, hread⟩ := h
  exact ⟨before, host, after ++ more, text, by simp, hfirst, hfetched, hread⟩

theorem FirstIncluded.included (h : FirstIncluded since key nodes) :
    ∃ host, (host, Event.included key) ∈ since := by
  obtain ⟨before, host, after, -, rfl, -⟩ := h
  exact ⟨host, by simp⟩

/-- There is one first inclusion, as there is one first entry of any kind in a list. -/
theorem eq_of_first {α : Type} {p : α → Prop} {before before' after after' : List α} {x x' : α}
    (h : before ++ x :: after = before' ++ x' :: after') (hx : p x) (hx' : p x')
    (hbefore : ∀ y ∈ before, ¬ p y) (hbefore' : ∀ y ∈ before', ¬ p y) :
    before = before' ∧ x = x' := by
  rcases List.append_eq_append_iff.1 h with ⟨c, rfl, hc⟩ | ⟨c, rfl, hc⟩
  · cases c with
    | nil => exact ⟨by simp, (List.cons.inj hc).1⟩
    | cons y c => exact absurd hx (hbefore' x (by simp [(List.cons.inj hc).1]))
  · cases c with
    | nil => exact ⟨by simp, (List.cons.inj hc).1.symm⟩
    | cons y c => exact absurd hx' (hbefore x' (by simp [(List.cons.inj hc).1]))

theorem Fetched.eq {h : Host} {text text' : String} (hf : Fetched since key h text)
    (hf' : Fetched since key h text') : text = text' := by
  obtain ⟨-, -, -, -, hat⟩ := hf
  obtain ⟨-, -, -, -, hat'⟩ := hf'
  rw [hat] at hat'
  exact Except.ok.inj hat'

theorem FirstIncluded.eq (h : FirstIncluded since key nodes) (h' : FirstIncluded since key nodes') :
    nodes = nodes' := by
  obtain ⟨before, host, after, text, hsince, hfirst, hfetched, hread⟩ := h
  obtain ⟨before', host', after', text', hsince', hfirst', hfetched', hread'⟩ := h'
  obtain ⟨rfl, heq⟩ := eq_of_first (p := fun entry => entry.2 = .included key)
    (hsince.symm.trans hsince') rfl rfl hfirst hfirst'
  cases heq
  rw [hfetched.eq hfetched', hread'] at hread
  exact (Except.ok.inj hread).symm

end

namespace Moment

/-- The cache holds the documents that have been included, each as it was when it was first. -/
structure Lawful (m : Moment) : Prop where
  first (key : String) (nodes : List Node) :
    m.cached? key = some nodes ↔ FirstIncluded m.since key nodes
  included (key : String) :
    (∃ nodes, m.cached? key = some nodes) ↔ ∃ h, (h, Event.included key) ∈ m.since

/-- It is enough that what is cached is what was first included, and that what was included is
cached. -/
theorem Lawful.intro {m : Moment}
    (first : ∀ key nodes, m.cached? key = some nodes → FirstIncluded m.since key nodes)
    (included : ∀ key h, (h, Event.included key) ∈ m.since → ∃ nodes, m.cached? key = some nodes) :
    m.Lawful := by
  refine ⟨fun key nodes => ⟨first key nodes, fun h => ?_⟩, fun key => ⟨?_, ?_⟩⟩
  · obtain ⟨host, hmem⟩ := h.included
    obtain ⟨nodes', cached⟩ := included key host hmem
    rw [h.eq (first key nodes' cached), cached]
  · rintro ⟨nodes, cached⟩
    exact (first key nodes cached).included
  · rintro ⟨h, hmem⟩
    exact included key h hmem

/-- With nothing in the cache and nothing included. -/
theorem Lawful.empty (w : World) : Lawful ⟨{ w with cache := [] }, []⟩ :=
  .intro (fun _ _ cached => by cases cached) fun _ _ hmem => absurd hmem List.not_mem_nil

/-! ## 2. Every step keeps it -/

/-- What a step makes of a moment with one more event that is not the inclusion of a document. -/
theorem Lawful.noting_other {m : Moment} (h : m.Lawful) {e : Event}
    (other : ∀ key, e ≠ .included key) : (m.noting e).Lawful := by
  refine .intro (fun key nodes cached => ((h.first key nodes).1 cached).append _) fun key host hmem => ?_
  rcases List.mem_append.1 hmem with hmem | hmem
  · exact (h.included key).2 ⟨host, hmem⟩
  · exact absurd (congrArg Prod.snd (List.mem_singleton.1 hmem)).symm (other key)

theorem Lawful.noting_again {m : Moment} (h : m.Lawful) {key : String} {nodes : List Node}
    (cached : m.cached? key = some nodes) : (m.noting (.included key)).Lawful := by
  refine .intro (fun key' nodes cached => ((h.first key' nodes).1 cached).append _)
    fun key' host hmem => ?_
  rcases List.mem_append.1 hmem with hmem | hmem
  · exact (h.included key').2 ⟨host, hmem⟩
  · cases congrArg Prod.snd (List.mem_singleton.1 hmem)
    exact ⟨nodes, cached⟩

/-- A document that was fetched and read may be put into the cache and noted, provided that nothing was
cached under its key. -/
theorem Lawful.noting_anew {m : Moment} (h : m.Lawful) {key text : String} {nodes : List Node}
    (missing : m.cached? key = none) (fetched : Fetched m.since key m.world.host text)
    (read : Node.parse text key = .ok nodes) :
    ((m.keeping key nodes).noting (.included key)).Lawful := by
  -- It is the first inclusion: an earlier one would have left the document in the cache.
  have before : ∀ entry ∈ m.since, entry.2 ≠ .included key := by
    rintro ⟨host, e⟩ hmem rfl
    obtain ⟨nodes', cached⟩ := (h.included key).2 ⟨host, hmem⟩
    rw [missing] at cached
    cases cached
  refine .intro (fun key' nodes' cached => ?_) fun key' host hmem => ?_
  · rw [cached?_noting, cached?_keeping] at cached
    by_cases same : key' = key
    · rw [if_pos same] at cached
      cases same
      cases cached
      exact ⟨m.since, m.world.host, [], text, rfl, before, fetched, read⟩
    · rw [if_neg same] at cached
      exact ((h.first key' nodes').1 cached).append _
  · rw [cached?_noting, cached?_keeping]
    by_cases same : key' = key
    · exact ⟨nodes, if_pos same⟩
    · rw [if_neg same]
      rcases List.mem_append.1 hmem with hmem | hmem
      · exact (h.included key').2 ⟨host, hmem⟩
      · exact absurd (Event.included.inj (congrArg Prod.snd (List.mem_singleton.1 hmem))) same

/-- **A step keeps the cache lawful.** Only a document that is included anew puts something into it, and
that is what was read from the text that was fetched first. -/
theorem Lawful.step {m m' : Moment} {opened : List String} (h : m.Lawful)
    (step : Step opened m m') : m'.Lawful := by
  cases step with
  | remember memory => exact ⟨h.first, h.included⟩
  | command c => exact h.noting_other nofun
  | @ask key => exact h.noting_other fun _ => Location.event_ne_included _ _
  | again _ cached => exact h.noting_again cached
  | anew _ missing fetched read => exact h.noting_anew missing fetched read

theorem Lawful.path {m m' : Moment} {opened : List String} (h : m.Lawful) (path : Path opened m m') :
    m'.Lawful := by
  induction path with
  | refl => exact h
  | tail _ step ih => exact ih.step step

end Moment

/-! ## 3. Calls and histories -/

namespace Engine

/-- A use of an engine. -/
inductive Call where
  | text (source : String)
  | document (nodes : List Node)
  | file (path : String)
  | expression (text : String) (scope : Scope)

/-- The world after a call. -/
def perform (e : Engine) (w : World) : Call → World
  | .text source => (e.evalText source w).2
  | .document nodes => (evalDocument (e.inline w.host) nodes w).2
  | .file path => (e.evalFile path w).2
  | .expression text scope => (e.evalExpression text ⟨scope, w⟩).2.world

/-- The activities that a call begins: each statement of its document, when it has its turn, or its
expression. -/
inductive Begins (e : Engine) (w : World) : Call → Activity → Prop
  | text {source : String} {nodes : List Node} {a : Activity}
    (read : Node.parse source "<input>" = .ok nodes)
    (statement : Activity.OfDocument (e.inline w.host) nodes ⟨.root [], w⟩ a) : Begins e w (.text source) a
  | document {nodes : List Node} {a : Activity}
    (statement : Activity.OfDocument (e.inline w.host) nodes ⟨.root [], w⟩ a) :
    Begins e w (.document nodes) a
  | file {path : String} {nodes : List Node} {a : Activity} (read : (parseFile path w).1 = .ok nodes)
    (statement : Activity.OfDocument (e.ofFile w.host path) nodes ⟨.root [], w⟩ a) :
    Begins e w (.file path) a
  | expression {text : String} {scope : Scope} {n : Node}
    (read : Node.parseExpression text "<expr>" = .ok n) :
    Begins e w (.expression text scope) (.whole (e.inline w.host) n ⟨scope, w⟩)

/-- The activities of a call. -/
def InCall (e : Engine) (w : World) (c : Call) (b : Activity) : Prop :=
  ∃ a, e.Begins w c a ∧ a.Within b

/-- What happens to an engine: it is called, its cache is cleared, or its surroundings change. -/
inductive Act where
  | call (c : Call)
  | clear
  | surroundings (h : Host)

/-- The moment after an act. What a call adds to the trace has happened in the surroundings that the
call found. -/
def after (e : Engine) (m : Moment) : Act → Moment
  | .call c =>
    let w := e.perform m.world c
    ⟨w, m.since ++ (w.trace.drop m.world.trace.length).map fun event => (m.world.host, event)⟩
  | .clear => ⟨{ m.world with cache := [] }, []⟩
  | .surroundings h => { m with world := { m.world with host := h } }

/-- The moment after a history. -/
def history (e : Engine) (m : Moment) (acts : List Act) : Moment :=
  acts.foldl e.after m

/-- The moment at which a new engine is used first. -/
def beginning (w : World) : Moment :=
  ⟨{ w with cache := [] }, []⟩

open Eval Moment

/-- What a document that is evaluated on its own leaves is the world. -/
theorem world_evalDocument (src : Source) (nodes : List Node) (w : World) :
    (evalDocument src nodes w).2 = (src.run nodes ⟨.root [], w⟩).2.world := by
  rw [evalDocument_apply]
  rcases src.run nodes ⟨.root [], w⟩ with ⟨(e | message) | a, s⟩ <;> rfl

/-- Reading a document does nothing to the world. -/
theorem world_parseFile (path : String) (w : World) : (parseFile path w).2 = w := by
  unfold parseFile readFile
  rw [Run.bind_apply, Run.get_bind]
  cases w.host.readFile path with
  | error fault => rfl
  | ok text =>
    show (Run.ofParse (Node.parse text path) w).2 = w
    cases Node.parse text path <;> rfl

/-- A call does nothing, runs a document, or evaluates an expression. -/
theorem perform_cases (e : Engine) (w : World) (c : Call) :
    (e.perform w c = w ∧ ∀ a, ¬ e.Begins w c a) ∨
      (∃ src nodes, src.engine = e ∧
        e.perform w c = (Source.run src nodes ⟨.root [], w⟩).2.world ∧
        ∀ a, e.Begins w c a ↔ Activity.OfDocument src nodes ⟨.root [], w⟩ a) ∨
      ∃ src n scope, src.engine = e ∧
        e.perform w c = (Node.evalValue src n ⟨scope, w⟩).2.world ∧
        ∀ a, e.Begins w c a ↔ a = .whole src n ⟨scope, w⟩ := by
  cases c with
  | text source =>
    cases read : Node.parse source "<input>" with
    | error fault =>
      refine .inl ⟨?_, ?_⟩
      · show (e.evalText source w).2 = w
        unfold evalText
        rw [read]
        rfl
      -- A text that cannot be read begins nothing, as beginning asks for the nodes read.
      · rintro a ⟨⟩
        rename_i read' _
        rw [read] at read'
        cases read'
    | ok nodes =>
      refine .inr (.inl ⟨e.inline w.host, nodes, rfl, ?_, fun a => ⟨?_, .text read⟩⟩)
      · show (e.evalText source w).2 = _
        rw [evalText_apply read, world_evalDocument]
      · rintro ⟨⟩
        rename_i read' statement
        cases Except.ok.inj (read.symm.trans read')
        exact statement
  | document nodes =>
    refine .inr (.inl ⟨_, nodes, rfl, world_evalDocument _ nodes w, fun a => ⟨?_, .document⟩⟩)
    rintro ⟨⟩
    assumption
  | file path =>
    have unchanged := world_parseFile path w
    have performed : e.perform w (.file path) = (e.evalFile path w).2 := rfl
    rw [evalFile_apply] at performed
    cases read : (parseFile path w).1 with
    | error stop =>
      refine .inl ⟨?_, ?_⟩
      · rw [performed]
        -- Reading the file is over, and the world is as before.
        generalize parseFile path w = ending at unchanged read
        obtain ⟨r, w'⟩ := ending
        cases read
        exact unchanged
      · rintro a ⟨⟩
        rename_i read' _
        rw [read] at read'
        cases read'
    | ok nodes =>
      refine .inr (.inl ⟨e.ofFile w.host path, nodes, rfl, ?_, fun a => ⟨?_, .file read⟩⟩)
      · rw [performed]
        generalize parseFile path w = ending at unchanged read
        obtain ⟨r, w'⟩ := ending
        cases read
        cases unchanged
        exact world_evalDocument _ nodes w'
      · rintro ⟨⟩
        rename_i read' statement
        cases Except.ok.inj (read.symm.trans read')
        exact statement
  | expression text scope =>
    have performed : e.perform w (.expression text scope) = (e.evalExpression text ⟨scope, w⟩).2.world :=
      rfl
    unfold evalExpression at performed
    cases read : Node.parseExpression text "<expr>" with
    | error fault =>
      rw [read] at performed
      refine .inl ⟨performed, ?_⟩
      rintro a ⟨⟩
      rename_i read'
      rw [read] at read'
      cases read'
    | ok n =>
      refine .inr (.inr ⟨e.inline w.host, n, scope, rfl, ?_, fun a => ⟨?_, ?_⟩⟩)
      · rw [performed, read]
        dsimp only
        rcases n.evalValue (e.inline w.host) ⟨scope, w⟩ with ⟨(fault | message) | v, s'⟩ <;> rfl
      · rintro ⟨⟩
        rename_i read'
        cases Except.ok.inj (read.symm.trans read')
        rfl
      · rintro rfl
        exact .expression read

/-- **A call goes from moment to moment step by step.** Every way to call the engine is the evaluation of a
node or of a list of statements, or it changes nothing. -/
theorem path_after_call (e : Engine) (m : Moment) (c : Call) : Path [] m (e.after m (.call c)) := by
  have h : ∃ since', Path [] m ⟨e.perform m.world c, since'⟩ := by
    rcases e.perform_cases m.world c with ⟨h, -⟩ | ⟨src, nodes, -, h, -⟩ | ⟨src, n, scope, -, h, -⟩
    · exact ⟨m.since, by rw [h]⟩
    · rw [h]
      exact (proceeds_run src nodes).anywhere ⟨.root [], m.world⟩ m.since
    · rw [h]
      exact (proceeds_evalValue src n).anywhere ⟨scope, m.world⟩ m.since
  -- What the path has added to what happened is what the call has added to the trace.
  obtain ⟨since', path⟩ := h
  obtain ⟨events, htrace, hsince, -⟩ := path.grows
  dsimp only at htrace hsince
  have same : e.after m (.call c) = ⟨e.perform m.world c, since'⟩ := by
    show Moment.mk (e.perform m.world c) _ = _
    rw [htrace, List.drop_left, hsince]
  rw [same]
  exact path

theorem lawful_after {e : Engine} {m : Moment} (h : m.Lawful) (act : Act) : (e.after m act).Lawful := by
  cases act with
  | call c => exact h.path (e.path_after_call m c)
  | clear => exact .empty m.world
  | surroundings host => exact ⟨h.first, h.included⟩

theorem lawful_history {e : Engine} {m : Moment} (h : m.Lawful) (acts : List Act) :
    (e.history m acts).Lawful := by
  induction acts generalizing m with
  | nil => exact h
  | cons act acts ih => exact ih (lawful_after h act)

end Engine

end BlockConfig
