import BlockConfig.Proofs.Eval.Activity
import BlockConfig.Proofs.Grammar.Parsed
import BlockConfig.Proofs.Inclusion.Cache
import BlockConfig.Proofs.Lexing.Cutting

/-!
Where errors come from.

An error of an activity is one that it raises itself, or it comes from one of its parts
(`Activity.accounts`). What it raises itself is plain: it says what went wrong and no more, unless it is
about a document that could not be read. What comes from a part is the error of the part as it is, or, if
the part is run as a statement, that error with the place of the statement.

So an error can be followed down the parts to where it was raised (`Activity.traced`). On the way up from
there it gets a place at the first statement and passes all others as it is. For this every statement has to
have a place, as those of the grammar do but for comments, which do not fail. And they are all of the
grammar: what is run in a document that was read was read itself, since in the cache of an engine there are
only documents that were (`Activity.FromText`). In a document that was read an error is therefore located
exactly once, in the innermost statement that was being run (`Engine.error_of_evalDocument`).

A statement that failed need not be the one that ended the document: a destructuring goes on when its
source fails. So it is not enough to name a statement that was run and failed. What is shown is the whole
way of the error, from the statement of the document that failed down to where it was raised, and every
activity on this way fails with what the next one hands on to it.
-/

set_option autoImplicit false

namespace BlockConfig

/-- A plain error has no places to be taken off. -/
theorem EvalError.root_of_plain {e : EvalError} (h : e.isPlain = true) : e.root = e := by
  cases e with
  | located => cases h
  | _ => rfl

/-! ## 1. Errors of parts -/

namespace Activity

open Eval

/-- An activity fails with an error. -/
def FailsWith (a : Activity) (e : EvalError) : Prop :=
  a.ending.1 = .error (.error e)

/-- What comes out of an activity that fails: if it is run as a statement that has a place, the error has
this place unless it had one before. -/
def outcome (a : Activity) (statement : Bool) (e : EvalError) : EvalError :=
  match statement, a.node.pos? with
  | true, some pos => e.locate a.src.file pos
  | _, _ => e

/-- An error comes from a part of an activity. -/
def FromPart (a : Activity) (e : EvalError) : Prop :=
  ∃ here statement b cause, Part a here statement b ∧ b.FailsWith cause ∧ e = b.outcome statement cause

/-- An activity raises an error itself: it fails with it, and it does not come from a part. -/
structure Raises (a : Activity) (e : EvalError) : Prop where
  fails : a.FailsWith e
  own : ¬ a.FromPart e

/-- From a state, an evaluation fails with what an activity can fail with: with a plain error, because a
document cannot be read, or with an error that comes from a part. -/
def Accounts (a : Activity) {α : Type} (x : Eval α) (s : State) : Prop :=
  ∀ e, (x s).1 = .error (.error e) → e.isPlain = true ∨ (∃ p, e = .parse p) ∨ a.FromPart e

section

variable {a : Activity} {α : Type} {x : Eval α} {s : State}

/-- A sequence accounts for its errors if its members do: the error of a sequence is that of the member at
which it ended. -/
theorem inherited_accounts (a : Activity) : Inherited a.Accounts where
  pure _ _ := fun e failed => by cases failed
  bind {_ _ x f s} h hf := by
    intro e failed
    rw [bind_apply] at failed
    have hx := h e
    generalize x s = ending at failed hx hf
    rcases ending with ⟨fault | b, t⟩
    · cases failed
      exact hx rfl
    · exact hf b t rfl e failed
  fail plain _ := fun e failed => by
    cases failed
    exact .inl plain
  scope _ := fun e failed => by cases failed
  world _ := fun e failed => by cases failed
  attempt {_ x s} _ := by
    -- What an attempt fails with is not an error.
    intro e failed
    unfold attempt at failed
    generalize x s = ending at failed
    rcases ending with ⟨(e' | message) | b, t⟩ <;> cases failed

/-- The error of an evaluation in another scope is the error of the evaluation. -/
theorem accounts_within {act : Eval Unit} {other : Scope → Scope}
    (h : a.Accounts act { s with scope := other s.scope }) : a.Accounts (within other act) s := by
  intro e failed
  have hact := h e
  unfold within at failed
  generalize act { s with scope := other s.scope } = ending at failed hact
  rcases ending with ⟨fault | b, t⟩
  · cases failed
    exact hact rfl
  · cases failed

theorem encloses_accounts (a : Activity) : Encloses a.Accounts a.Accounts where
  inChild h := accounts_within h
  aside h := h

theorem accounts_call (f : Callable) (values : List Value) (s : State) :
    a.Accounts (call f values) s := by
  intro e failed
  unfold call at failed
  generalize f values s.world.memory = answer at failed
  rcases answer with ⟨v | message | message, memory⟩ <;> cases failed

/-- A command that fails does so plainly. -/
theorem accounts_runCommand (src : Source) (c : Command) (s : State) :
    a.Accounts (runCommand src c) s := by
  intro e failed
  rw [runCommand_apply] at failed
  generalize src.engine.runner s.world.host c = answer at failed
  cases answer with
  | error reason =>
    cases failed
    exact .inl rfl
  | ok output => cases failed

/-- The error of a statement that is run is what comes out of it. -/
theorem outcome_of_locating {b : Activity} {e : EvalError}
    (failed : (locating b.src.file b.node.pos? (b.node.evalWith b.src b.hooks) b.state).1 =
      .error (.error e)) : ∃ cause, b.FailsWith cause ∧ e = b.outcome true cause := by
  unfold locating at failed
  rcases ran : b.node.evalWith b.src b.hooks b.state with ⟨(cause | message) | v, t⟩
  · refine ⟨cause, congrArg Prod.fst ran, ?_⟩
    rw [ran] at failed
    unfold outcome
    cases place : b.node.pos? with
    | none =>
      rw [place] at failed
      cases failed
      rfl
    | some pos =>
      rw [place] at failed
      cases failed
      rfl
  · rw [ran] at failed
    cases failed
  · rw [ran] at failed
    cases failed

/-- A part that is run as a statement. -/
theorem accounts_statement {here : Bool} {b : Activity} (part : Part a here true b) :
    a.Accounts (locating b.src.file b.node.pos? (b.node.evalWith b.src b.hooks)) b.state := by
  intro e failed
  obtain ⟨cause, hb, same⟩ := outcome_of_locating failed
  exact .inr (.inr ⟨here, true, b, cause, part, hb, same⟩)

theorem plain_find {src : Source} {host : Host} {target : String} : PlainResult (src.find host target) := by
  unfold Source.find
  split
  · split
    · exact .ok _
    · exact .error rfl
  · split
    · exact .ok _
    · exact .error rfl

/-- An inclusion fails with a plain error, because the document cannot be read, or because a statement of
it fails. -/
theorem accounts_includeWith {left : Nat} {target : String} (room : a.documents = left + 1)
    (runs : Runs a.src a.hooks a.node a.state true (.included target) s) :
    a.Accounts (includeWith (Source.runWithin left) a.src target) s := by
  -- What an included document runs is a part of this inclusion, from the cache or anew.
  have opened {inner : Source} {nodes : List Node} {t : State}
      (enters : Enters a.src target s inner nodes t) :
      a.Accounts (Source.runWithin left inner nodes) t :=
    (inherited_accounts a).evalStatements fun m v turn =>
      accounts_statement (.included room runs enters turn)
  have h := included (Source.runWithin left) a.src target s
  intro e failed
  generalize (includeWith (Source.runWithin left) a.src target s).1 = r at h failed
  generalize (includeWith (Source.runWithin left) a.src target s).2 = s' at h
  cases h with
  | lost lost =>
    cases failed
    exact .inl (plain_find _ lost)
  | circular | unfetched =>
    cases failed
    exact .inl rfl
  | unread =>
    cases failed
    exact .inr (.inl ⟨_, rfl⟩)
  | again | anew => cases failed
  | againFailed found closed cached ran =>
    have inside : a.Accounts (inChild _) s := accounts_within (opened (.again found closed cached))
    cases failed
    exact inside e (congrArg Prod.fst ran)
  | anewFailed found closed missing fetched read ran =>
    have inside : a.Accounts (inFresh _) (s.noting _) :=
      accounts_within (opened (.anew found closed missing fetched read))
    cases failed
    exact inside e (congrArg Prod.fst ran)

end

/-- **What an activity fails with** is a plain error that it raises itself, a document that cannot be read,
or what one of its parts fails with. It follows from the parts, as sequences inherit it. -/
theorem accounts (a : Activity) : a.Accounts (a.node.evalWith a.src a.hooks) a.state := by
  have hP := inherited_accounts a
  have parts (here : Bool) (task : Task) (t : State)
      (runs : Runs a.src a.hooks a.node a.state here task t) :
      a.Accounts (task.run a.src a.hooks) t := by
    cases task with
    | operand m => exact fun e failed => .inr (.inr ⟨here, false, _, e, .operand runs, failed, rfl⟩)
    | statement m => exact accounts_statement (.statement runs)
    | spliced m =>
      cases runs.here_of_leaves rfl
      refine inherited_splice hP fun depth room e failed => ?_
      exact .inr (.inr ⟨true, false, _, e, .spliced room runs, failed, rfl⟩)
    | included target =>
      cases runs.here_of_leaves rfl
      exact inherited_inclusion hP fun left room => accounts_includeWith room runs
  refine evalWith_of_runs hP hP (encloses_accounts a) ?_ ?_ accounts_call
    (fun _ => accounts_runCommand a.src) (parts true) (parts false)
  · exact fun _ _ _ e failed => by cases failed
  · exact fun _ _ _ _ e failed => by cases failed

end Activity

/-! ## 2. Only what was read is run -/

/-- The documents in the cache were read. -/
def World.DocumentsRead (w : World) : Prop :=
  ∀ key nodes, Table.find? w.cache key = some nodes → ∃ text, Node.parse text key = .ok nodes

/-- Along a path only documents get into the cache that could be read. -/
theorem Moment.Path.documentsRead {opened : List String} {m m' : Moment} (path : Path opened m m')
    (h : m.world.DocumentsRead) : m'.world.DocumentsRead := by
  induction path with
  | refl => exact h
  | tail _ step ih =>
    cases step with
    | remember | command | ask | again => exact ih
    | @anew key text nodes _ _ _ read =>
      intro key' nodes' cached
      change cached? _ key' = some nodes' at cached
      rw [cached?_noting, cached?_keeping] at cached
      by_cases same : key' = key
      · rw [if_pos same] at cached
        cases cached
        exact ⟨text, same ▸ read⟩
      · rw [if_neg same] at cached
        exact ih key' nodes' cached

theorem Moment.Lawful.documentsRead {m : Moment} (h : m.Lawful) : m.world.DocumentsRead := by
  intro key nodes cached
  obtain ⟨_, _, _, text, -, -, -, read⟩ := (h.first key nodes).1 cached
  exact ⟨text, read⟩

namespace Eval

theorem Leads.documentsRead {s t : State} (h : Leads s t) (hs : s.world.DocumentsRead) :
    t.world.DocumentsRead := by
  obtain ⟨since', path⟩ := h []
  exact path.documentsRead hs

theorem Enters.documentsRead {src inner : Source} {target : String} {nodes : List Node} {s t : State}
    (h : Enters src target s inner nodes t) (hs : s.world.DocumentsRead) :
    t.world.DocumentsRead ∧ ∃ text file, Node.parse text file = .ok nodes := by
  cases h with
  | @again place _ _ _ cached =>
    obtain ⟨text, read⟩ := hs _ _ cached
    exact ⟨hs, text, _, read⟩
  | anew _ _ _ _ read => exact ⟨hs, _, _, read⟩

end Eval

/-- A statement as the grammar has it. -/
def Node.IsProperStatement (n : Node) : Prop :=
  n.isStatement = true ∧ n.FitsHere

/-- A statement of the grammar without a place is a comment. -/
theorem Node.eq_comment_of_pos? {n : Node} (proper : n.IsProperStatement) (h : n.pos? = none) :
    ∃ text, n = .comment text := by
  obtain ⟨statement, fits⟩ := proper
  cases n with
  | comment text => exact ⟨text, rfl⟩
  | assignEach pairs =>
    cases pairs with
    | nil => exact absurd fits.1 (by decide)
    | cons pair pairs => cases h
  | destructure targets source =>
    cases targets with
    | nil => exact absurd fits.1 (by decide)
    | cons target targets => cases h
  | control branches =>
    obtain ⟨⟨b, hb, -⟩, -⟩ := fits
    cases branches with
    | nil => cases hb
    | cons b branches => cases h
  | assign | block | container | arrow | inclusion | pipeline | exec => cases h
  | _ => cases statement

/-- In a tree of the grammar, what is run as a statement is one. -/
theorem Eval.Runs.isStatement {src : Source} {hooks : Hooks} {n m : Node} {s t : State} {here : Bool}
    (runs : Runs src hooks n s here (.statement m) t) (fits : n.FitsHere) : m.isStatement = true := by
  cases runs with
  | body body turn =>
    have hm := turn.mem
    cases n with
    | block | container | map =>
      cases body
      exact fits.1 m hm
    | arrow =>
      cases body
      exact fits m hm
    | _ => cases body
  | branch turn taken later => exact (fits.2.of_mem turn.mem).2 m later.mem

namespace Activity

open Eval

variable {a b : Activity}

/-- The node of an activity was read, and so were the documents that are in the cache when it begins. -/
structure FromText (a : Activity) : Prop where
  fits : a.node.Everywhere Node.FitsHere
  documents : a.state.world.DocumentsRead

/-- A statement of a document that was read, whenever it has its turn. -/
theorem fromText_of_inTurn {src : Source} {left depth : Nat} {nodes : List Node} {m : Node}
    {s t : State} {text file : String} (read : Node.parse text file = .ok nodes)
    (hs : s.world.DocumentsRead)
    (turn : InTurn (Finishes src (Hooks.atDepth (src.includeWithin left) src depth)) nodes s m t) :
    FromText ⟨src, left, depth, m, t⟩ ∧ m.isStatement = true := by
  obtain ⟨shaped, statements⟩ := Node.shaped_of_parse read
  refine ⟨⟨(shaped m turn.mem).mono fun _ h => h.1, ?_⟩, statements m turn.mem⟩
  have hooked := hooksProceed ⟨src, left, depth, m, t⟩
  exact turn.keeps (I := fun s => s.world.DocumentsRead)
    (fun _ _ _ finishes => (finishes.leads hooked).documentsRead) hs

/-- **What is run was read,** and if it is run as a statement, as a statement. It is below the node, or in
an expression that was read in a string, or in a document that comes from the cache or is new. -/
theorem FromText.part (h : a.FromText) {here statement : Bool} (part : Part a here statement b) :
    b.FromText ∧ (statement = true → b.node.IsProperStatement) := by
  have fits {here : Bool} {task : Task} {m : Node} {t : State}
      (runs : Runs a.src a.hooks a.node a.state here task t) (node : task.node? = some m) :
      m.Everywhere Node.FitsHere := by
    rcases runs.below node with hm | ⟨k, hk, hm⟩
    · exact h.fits.child m hm
    · exact (h.fits.child k hk).child m hm
  cases part with
  | operand runs => exact ⟨⟨fits runs rfl, (runs.leads a.hooksProceed).documentsRead h.documents⟩, nofun⟩
  | statement runs =>
    have hm := fits runs rfl
    exact ⟨⟨hm, (runs.leads a.hooksProceed).documentsRead h.documents⟩,
      fun _ => ⟨runs.isStatement h.fits.here, hm.here⟩⟩
  | spliced room runs =>
    obtain ⟨_, _, _, _, _, -, -, read⟩ := runs.splices
    exact ⟨⟨(Hole.fits_of_read read).1, (runs.leads a.hooksProceed).documentsRead h.documents⟩, nofun⟩
  | included room runs enters turn =>
    obtain ⟨documents, text, file, read⟩ :=
      enters.documentsRead ((runs.leads a.hooksProceed).documentsRead h.documents)
    obtain ⟨hm, statement⟩ := fromText_of_inTurn read documents turn
    exact ⟨hm, fun _ => ⟨statement, hm.fits.here⟩⟩

/-! ## 3. Where an error was raised -/

theorem not_failsWith_of_comment {text : String} (h : a.node = .comment text) (e : EvalError) :
    ¬ a.FailsWith e := by
  intro failed
  unfold FailsWith ending at failed
  rw [h, Node.evalWith] at failed
  cases failed

/-- An activity passes on the error of a part that is not run as a statement. -/
def PassesOn (cause : EvalError) (a b : Activity) : Prop :=
  b.FailsWith cause ∧ ∃ here, Part a here false b

/-- An error is raised in an activity, with no statement being run in between. -/
def RaisedIn (cause : EvalError) (a : Activity) : Prop :=
  ∃ c, Relation.ReflTransGen (PassesOn cause) a c ∧ c.Raises cause

/-- An activity hands on the error of a part as it is. -/
def HandsOn (e : EvalError) (a b : Activity) : Prop :=
  a.FailsWith e ∧ b.FailsWith e ∧ ∃ here statement, Part a here statement b

/-- The error of an activity is what comes out of a statement `b` that is run in it, there or deeper. All
activities in between fail with it, each because the next one does. -/
def ComesOutOf (e : EvalError) (a b : Activity) : Prop :=
  ∃ c here, Relation.ReflTransGen (HandsOn e) a c ∧ c.FailsWith e ∧ Part c here true b

/-- An error is located in a statement: it is a plain error with the place of the statement, and the
statement has failed with the plain error, which was raised in it. -/
def LocatedIn (e : EvalError) (b : Activity) : Prop :=
  ∃ pos cause, b.node.pos? = some pos ∧ e = .located b.src.file pos cause ∧ cause.isPlain = true ∧
    b.FailsWith cause ∧ RaisedIn cause b

/-- What becomes of an error where an activity is run: as a statement with a place it locates the error,
and else the error is what it was. -/
theorem outcome_cases (b : Activity) (statement : Bool) (e : EvalError) :
    (statement = true ∧ ∃ pos, b.node.pos? = some pos ∧
      b.outcome statement e = e.locate b.src.file pos) ∨
    (b.outcome statement e = e ∧ (statement = true → b.node.pos? = none)) := by
  unfold outcome
  cases statement with
  | false => exact .inr ⟨rfl, fun h => by cases h⟩
  | true =>
    cases place : b.node.pos? with
    | none => exact .inr ⟨rfl, fun _ => rfl⟩
    | some pos => exact .inl ⟨rfl, pos, rfl, rfl⟩

/-- An error that is not plain has its place, or needs none. -/
theorem outcome_of_not_plain {e : EvalError} (h : e.isPlain = false) (b : Activity) (statement : Bool) :
    b.outcome statement e = e := by
  rcases outcome_cases b statement e with ⟨-, pos, -, same⟩ | ⟨same, -⟩
  · rw [same]
    cases e with
    | parse | located => rfl
    | _ => cases h
  · exact same

theorem locate_of_plain {e : EvalError} (h : e.isPlain = true) (file : String) (pos : Position) :
    e.locate file pos = .located file pos e := by
  cases e with
  | parse | located => cases h
  | _ => rfl

/-- An error of an activity is known: it is about a document that cannot be read, it is plain and was
raised with no statement in between, or it is located in a statement and comes out of it. -/
def Traced (e : EvalError) (a : Activity) : Prop :=
  (∃ p, e = .parse p) ∨ (e.isPlain = true ∧ RaisedIn e a) ∨ ∃ b, ComesOutOf e a b ∧ LocatedIn e b

/-- What is known of an error where the activity is run. A plain error stays plain only if it is not run as
a statement. -/
theorem Traced.outcome {cause : EvalError} (h : Traced cause b) (hb : b.FailsWith cause)
    {statement : Bool} (proper : statement = true → b.node.IsProperStatement) :
    (∃ p, b.outcome statement cause = .parse p) ∨
      (b.outcome statement cause = cause ∧ cause.isPlain = true ∧ RaisedIn cause b ∧
        statement = false) ∨
      ∃ d, ((statement = true ∧ d = b) ∨
          (b.outcome statement cause = cause ∧ ComesOutOf cause b d)) ∧
        LocatedIn (b.outcome statement cause) d := by
  rcases h with ⟨p, rfl⟩ | ⟨plain, raised⟩ | ⟨d, runs, located⟩
  · exact .inl ⟨p, outcome_of_not_plain rfl b statement⟩
  · rcases outcome_cases b statement cause with ⟨rfl, pos, hpos, same⟩ | ⟨same, unplaced⟩
    · refine .inr (.inr ⟨b, .inl ⟨rfl, rfl⟩, pos, cause, hpos, ?_, plain, hb, raised⟩)
      rw [same, locate_of_plain plain]
    · refine .inr (.inl ⟨same, plain, raised, ?_⟩)
      cases statement with
      | false => rfl
      | true =>
        -- A statement that locates nothing is a comment, and has not failed.
        obtain ⟨text, comment⟩ := Node.eq_comment_of_pos? (proper rfl) (unplaced rfl)
        exact absurd hb (not_failsWith_of_comment comment cause)
  · -- It has its place, so it comes out of the other statements as it is.
    have same : b.outcome statement cause = cause := by
      obtain ⟨pos, cause', -, rfl, -⟩ := located
      exact outcome_of_not_plain rfl b statement
    exact .inr (.inr ⟨d, .inr ⟨same, runs⟩, by rwa [same]⟩)

/-- **An error can be traced to where it was raised.** By induction along the parts: an error that comes
from a part has been traced there, and any other is raised by the activity itself. -/
theorem traced (a : Activity) (fromText : a.FromText) {e : EvalError} (failed : a.FailsWith e) :
    Traced e a := by
  induction a using induction_parts generalizing e with
  | step a ih =>
    -- Either the error comes from a part, where it can be traced already, or it was raised here.
    by_cases own : a.FromPart e
    · obtain ⟨here, statement, b, cause, part, hb, rfl⟩ := own
      obtain ⟨read, proper⟩ := fromText.part part
      rcases (ih here statement b part read hb).outcome hb proper with
        parse | ⟨same, plain, ⟨c, path, raises⟩, rfl⟩ | ⟨d, ⟨rfl, rfl⟩ | ⟨same, out⟩, located⟩
      · exact .inl parse
      · rw [same]
        exact .inr (.inl ⟨plain, c, .head ⟨hb, here, part⟩ path, raises⟩)
      · exact .inr (.inr ⟨d, ⟨a, here, .refl, failed, part⟩, located⟩)
      · rw [same] at failed located ⊢
        obtain ⟨c, here', path, failed', last⟩ := out
        exact .inr (.inr ⟨d, ⟨c, here', .head ⟨failed, hb, here, statement, part⟩ path, failed', last⟩,
          located⟩)
    · rcases a.accounts e failed with plain | parse | part
      · exact .inr (.inl ⟨plain, a, .refl, failed, own⟩)
      · exact .inl parse
      · exact absurd part own

/-- The error that ends a run of a document comes out of a statement `b`. The statements of the document
have been run in order up to one that fails, and this one is `b`, or its error is what comes out of `b`. -/
def EndsRun (src : Source) (nodes : List Node) (s : State) (e : EvalError) (b : Activity) : Prop :=
  ∃ a, OfDocument src nodes s a ∧ (b = a ∨ (a.FailsWith e ∧ ComesOutOf e a b))

end Activity

/-! ## 4. Documents -/

namespace Eval

/-- Statements that are run one after another fail if one of them does, when its turn comes. -/
theorem error_of_evalStatements {src : Source} {hooks : Hooks} {ns : List Node} {s : State}
    {fault : Fault} (failed : (evalStatements src hooks ns s).1 = .error fault) :
    ∃ m t, InTurn (Finishes src hooks) ns s m t ∧
      (locating src.file m.pos? (m.evalWith src hooks) t).1 = .error fault := by
  induction ns generalizing s with
  | nil => cases failed
  | cons n ns ih =>
    unfold evalStatements at failed
    rw [bind_apply] at failed
    rcases ran : locating src.file n.pos? (n.evalWith src hooks) s with ⟨fault' | v, t⟩
    · rw [ran] at failed
      cases failed
      exact ⟨n, s, .first, congrArg Prod.fst ran⟩
    · rw [ran] at failed
      obtain ⟨m, u, turn, hm⟩ := ih failed
      exact ⟨m, u, .next ⟨v, locating_eq_ok ran⟩ turn, hm⟩

end Eval

namespace Engine

open Activity

/-- **Errors are located once, in the innermost statement.** Whatever has been done with an engine before:
if a document that was read fails, then because another one cannot be read, or with a plain error that has
the place of a statement, which is a statement of the document or of one that it includes. From the
statement of the document that failed down to this one, every activity fails with the located error
because the next one does (`EndsRun`); and from there down to the activity that raised it, none of them
run as a statement, every one fails with the plain error because the next one does (`RaisedIn`). -/
theorem error_of_evalDocument (e : Engine) (w : World) (acts : List Act) {text name : String}
    {nodes : List Node} (read : Node.parse text name = .ok nodes) {src : Source} {error : EvalError}
    (failed : (evalDocument src nodes (e.history (beginning w) acts).world).1 =
      .error (.error (.eval error))) :
    (∃ p, error = .parse p) ∨
      ∃ b pos cause, EndsRun src nodes ⟨.root [], (e.history (beginning w) acts).world⟩ error b ∧
        b.node.pos? = some pos ∧ error = .located b.src.file pos cause ∧ cause.isPlain = true ∧
        error.root = cause ∧ b.FailsWith cause ∧ RaisedIn cause b := by
  have documents : (e.history (beginning w) acts).world.DocumentsRead :=
    (lawful_history (.empty w) acts).documentsRead
  generalize (e.history (beginning w) acts).world = w at failed documents ⊢
  -- The table at the end is made of what the statements did, so the error is theirs.
  have ran : (src.run nodes ⟨.root [], w⟩).1 = .error (.error error) := by
    rw [evalDocument_apply] at failed
    rcases h : src.run nodes ⟨.root [], w⟩ with ⟨(e' | message) | v, s⟩
    · rw [h] at failed
      cases failed
      rfl
    · rw [h] at failed
      cases failed
    · rw [h] at failed
      cases failed
  rw [Source.run_apply] at ran
  obtain ⟨m, t, turn, hm⟩ := Eval.error_of_evalStatements ran
  have top : OfDocument src nodes ⟨.root [], w⟩ ⟨src, w.reach + 1, longestTextAll nodes, m, t⟩ :=
    .intro turn
  obtain ⟨fromText, statement⟩ := fromText_of_inTurn read documents turn
  obtain ⟨cause, hcause, same⟩ := outcome_of_locating
    (b := ⟨src, w.reach + 1, longestTextAll nodes, m, t⟩) hm
  -- The statement that failed is followed down, until one locates the error or a document is found that
  -- cannot be read.
  rcases (traced _ fromText hcause).outcome hcause fun _ => ⟨statement, fromText.fits.here⟩ with
    ⟨p, parse⟩ | ⟨-, -, -, no⟩ | ⟨b, out, located⟩
  · exact .inl ⟨p, same.trans parse⟩
  · cases no
  · have ends : EndsRun src nodes ⟨.root [], w⟩ error b := by
      refine ⟨_, top, out.imp And.right ?_⟩
      rintro ⟨unchanged, out⟩
      rw [same, unchanged]
      exact ⟨hcause, out⟩
    rw [← same] at located
    obtain ⟨pos, cause', hpos, rfl, plain, hb, raised⟩ := located
    have root : (EvalError.located b.src.file pos cause').root = cause' := EvalError.root_of_plain plain
    exact .inr ⟨b, pos, cause', ends, hpos, rfl, plain, root, hb, raised⟩

/-- A document with a block in which something is divided by zero. -/
def dividingText : String :=
  "b \x7bx = 1 / 0\x7d"

/-- Its tokens. -/
def dividingTokens : List Token :=
  [⟨.ident, "b", ⟨1, 1⟩, none, none⟩, ⟨.lbrace, "\x7b", ⟨1, 3⟩, none, none⟩,
    ⟨.ident, "x", ⟨1, 4⟩, none, none⟩, ⟨.assign, "=", ⟨1, 6⟩, none, none⟩,
    ⟨.number, "1", ⟨1, 8⟩, none, none⟩, ⟨.slash, "/", ⟨1, 10⟩, none, none⟩,
    ⟨.number, "0", ⟨1, 12⟩, none, none⟩, ⟨.rbrace, "\x7d", ⟨1, 13⟩, none, none⟩,
    .endOfInput ⟨1, 14⟩]

/-- Its node. -/
def dividingNode : Node :=
  .block "b" none [.assign ⟨"x", ⟨1, 4⟩⟩
    (.binary .div (.literal (.int 1)) (.literal (.int 0))) .equals] ⟨1, 1⟩

/-- The division in the block fails the document. Its error has the place of the assignment in the block,
where it was raised, and not that of the block. -/
theorem error_of_evalDocument_dividing :
    let e : Engine := ⟨.default, [], fun _ _ => .error "no commands"⟩
    let src : Source := ⟨e, "d", "/", []⟩
    let w : World := ⟨⟨⟨[], []⟩, "/", [], []⟩, .fresh, [], []⟩
    Node.parse dividingText "d" = .ok [dividingNode] ∧
      (evalDocument src [dividingNode] w).1 =
        .error (.error (.eval (.located "d" ⟨1, 4⟩ .divisionByZero))) ∧
      ∃ b, EndsRun src [dividingNode] ⟨.root [], w⟩ (.located "d" ⟨1, 4⟩ .divisionByZero) b ∧
        b.src.file = "d" ∧ b.node.pos? = some ⟨1, 4⟩ ∧ b.FailsWith .divisionByZero ∧
          RaisedIn .divisionByZero b := by
  intro e src w
  have htokens : Token.list dividingText.toList = .ok dividingTokens := by
    -- One step for each token.
    refine Token.listFrom_step rfl rfl rfl ?_
    refine Token.listFrom_step rfl rfl rfl ?_
    refine Token.listFrom_step rfl rfl rfl ?_
    refine Token.listFrom_step rfl rfl rfl ?_
    refine Token.listFrom_step rfl rfl rfl ?_
    refine Token.listFrom_step rfl rfl rfl ?_
    refine Token.listFrom_step rfl rfl rfl ?_
    refine Token.listFrom_step rfl rfl rfl ?_
    exact Token.listFrom_nil _
  have hgives : (Rule.document (Rule.budget dividingTokens)).Gives ⟨0, dividingTokens⟩ [dividingNode]
      ⟨1, [.endOfInput ⟨1, 14⟩]⟩ := rfl
  have hparse : Node.parse dividingText "d" = .ok [dividingNode] :=
    Rule.readText_ok_iff.2 ⟨dividingTokens, _, htokens, hgives⟩
  have failed : (evalDocument src [dividingNode] w).1 =
      .error (.error (.eval (.located "d" ⟨1, 4⟩ .divisionByZero))) := rfl
  refine ⟨hparse, failed, ?_⟩
  rcases error_of_evalDocument e w [] hparse failed with
    ⟨p, parse⟩ | ⟨b, pos, cause, ends, hpos, same, -, -, rest⟩
  · cases parse
  · obtain ⟨file, rfl, rfl⟩ := EvalError.located.inj same
    exact ⟨b, ends, file.symm, hpos, rest⟩

end Engine

end BlockConfig
