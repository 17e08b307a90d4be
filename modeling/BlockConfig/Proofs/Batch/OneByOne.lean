import BlockConfig.Proofs.Batch.Schedules
import BlockConfig.Proofs.Pool.Single

/-!
One worker is the loop over the documents.

Documents that include others, run commands or set the same names do depend on each other: what one
leaves in the world is what the next one begins with, and of two values for a name the later counts. A
pool with one worker does with such documents what a loop does that reads and evaluates one after the
other and carries on after a failure (`oneByOne`): the world is the same in the end, with the cache and
everything that happened in it, and so is the table, or the list of errors
(`merge_oneByOne`).

That the pool works in order is known of any job (`Pool.results_of_single`). What is left is to go
through the documents on both sides: the pool keeps all outcomes and gathers them at the end, the loop
keeps the table and the errors so far (`Gathered.taking`), and both agree after every document
(`oneByOne_of_inTurn`). Where a function breaks off the two differ, since a pool goes on and the loop
does not.
-/

set_option autoImplicit false

namespace BlockConfig.Batch

/-! ## 1. The loop -/

/-- What a loop over documents has so far: the variables of those that were evaluated, the later ones
on top, and the errors of the others. -/
structure Gathered where
  table : Table Value
  errors : List RunError

namespace Gathered

/-- Nothing yet. -/
def none : Gathered :=
  ⟨[], []⟩

/-- With the variables or the error of one more document. -/
def taking (g : Gathered) : Outcome (Table Value) → Gathered
  | .ok vars => { g with table := Table.union g.table vars }
  | .error e => { g with errors := g.errors ++ [e] }

/-- The table, or all errors if there are any. -/
def outcome (g : Gathered) : Except Errors (Table Value) :=
  if g.errors.isEmpty then .ok g.table else .error ⟨g.errors⟩

end Gathered

/-- Documents one by one: each is read under its name and evaluated, whatever came of those before it.
When a function breaks off, so does the loop. -/
def oneByOne (e : Engine) : Gathered → List (String × String) → Run (Except Errors (Table Value))
  | g, [] => return g.outcome
  | g, source :: sources => fun w =>
    match sourceRun e source w with
    | (.ok vars, w) => oneByOne e (g.taking (.ok vars)) sources w
    | (.error (.error fault), w) => oneByOne e (g.taking (.error fault)) sources w
    | (.error (.abort message), w) => (.error (.abort message), w)

variable {e : Engine} {sources : List (String × String)} {w : World}

/-! ## 2. What documents fail with -/

/-- An error of a document itself, and not of the pool. -/
def OfDocument (e : RunError) : Prop :=
  (∃ fault, e = .parse fault) ∨ ∃ fault, e = .eval fault

/-- A source that fails does so with an error of its document, be it in reading or in evaluating it. -/
theorem ofDocument_of_sourceRun {source : String × String} {fault : RunError}
    (failed : (sourceRun e source w).1 = .error (.error fault)) : OfDocument fault := by
  unfold sourceRun at failed
  cases parsed : Node.parse source.2 source.1 with
  | error p =>
    rw [parsed] at failed
    cases failed
    exact .inl ⟨p, rfl⟩
  | ok nodes =>
    rw [parsed, Run.ofParse_bind, Run.get_bind, Engine.evalDocument_apply] at failed
    generalize (e.inline w.host).run nodes ⟨.root [], w⟩ = ending at failed
    rcases ending with ⟨(x | message) | a, s⟩
    · cases failed
      exact .inr ⟨x, rfl⟩
    · cases failed
    · cases failed

/-! ## 3. Gathering at the end and on the way -/

/-- The error that an item failed with. -/
def failureOf {β : Type} : Outcome β → Option RunError
  | .ok _ => none
  | .error e => some e

/-- What has been gathered from some outcomes: the values on top of each other, and the errors. -/
theorem foldl_taking (outcomes : List (Outcome (Table Value))) (g : Gathered) :
    outcomes.foldl Gathered.taking g =
      ⟨(valuesOf outcomes).foldl Table.union g.table, g.errors ++ outcomes.filterMap failureOf⟩ := by
  induction outcomes generalizing g with
  | nil => simp [valuesOf]
  | cons o outcomes ih =>
    rw [List.foldl_cons, ih]
    cases o <;> simp [Gathered.taking, valuesOf, failureOf, List.filterMap_cons]

/-- Errors of documents are kept as they are. -/
theorem errorsOf_eq {β : Type} {outcomes : List (Outcome β)}
    (own : ∀ fault, .error fault ∈ outcomes → OfDocument fault) :
    errorsOf outcomes = outcomes.filterMap failureOf := by
  have none : outcomes.countP isSkipped = 0 := by
    refine List.countP_eq_zero.2 fun o hmem => ?_
    cases o with
    | ok b => simp [isSkipped]
    | error fault => rcases own fault hmem with ⟨p, rfl⟩ | ⟨x, rfl⟩ <;> simp [isSkipped]
  rw [errorsOf, none, if_pos rfl]
  refine List.filterMap_congr fun o hmem => ?_
  cases o with
  | ok b => rfl
  | error fault => rcases own fault hmem with ⟨p, rfl⟩ | ⟨x, rfl⟩ <;> rfl

/-- Gathering outcomes of documents at the end gives what gathering them one by one gives. -/
theorem gather_eq_outcome {outcomes : List (Outcome (Table Value))}
    (own : ∀ fault, .error fault ∈ outcomes → OfDocument fault) :
    (gather outcomes).map (fun tables => tables.foldl Table.union []) =
      (outcomes.foldl Gathered.taking .none).outcome := by
  rw [foldl_taking, Gathered.none, Gathered.outcome, gather, errorsOf_eq own, List.nil_append]
  cases outcomes.filterMap failureOf <;> rfl

/-! ## 4. The pool and the loop -/

theorem oneByOne_cons_ok {g : Gathered} {source : String × String} {vars : Table Value} {w' : World}
    (h : sourceRun e source w = (.ok vars, w')) :
    oneByOne e g (source :: sources) w = oneByOne e (g.taking (.ok vars)) sources w' := by
  rw [oneByOne]
  dsimp only
  rw [h]

theorem oneByOne_cons_error {g : Gathered} {source : String × String} {fault : RunError} {w' : World}
    (h : sourceRun e source w = (.error (.error fault), w')) :
    oneByOne e g (source :: sources) w = oneByOne e (g.taking (.error fault)) sources w' := by
  rw [oneByOne]
  dsimp only
  rw [h]

theorem oneByOne_cons_abort {g : Gathered} {source : String × String} {message : String} {w' : World}
    (h : sourceRun e source w = (.error (.abort message), w')) :
    oneByOne e g (source :: sources) w = (.error (.abort message), w') := by
  rw [oneByOne]
  dsimp only
  rw [h]

/-- **Working through documents, the pool comes to outcomes** of which the loop makes what can be
gathered from them one by one, and both leave the same world. -/
theorem oneByOne_of_foldl (placed : List (Nat × (String × String))) (g : Gathered)
    (results : List (Nat × Outcome (Table Value)))
    (calm : ∀ message, (oneByOne e g (placed.map Prod.snd) w).1 ≠ .error (.abort message)) :
    ∃ (outcomes : List (Outcome (Table Value))) (ending : List (Nat × Outcome (Table Value)) × World),
      (∀ fault, .error fault ∈ outcomes → OfDocument fault) ∧
      placed.foldl (Pool.report (job (sourceRun e))) (results, w) = ending ∧
      ending.1.map Prod.snd = results.map Prod.snd ++ outcomes ∧
      oneByOne e g (placed.map Prod.snd) w =
        (.ok (outcomes.foldl Gathered.taking g).outcome, ending.2) := by
  induction placed generalizing w g results with
  | nil => exact ⟨[], _, by simp, rfl, by simp, rfl⟩
  | cons x placed ih =>
    rw [List.map_cons] at calm ⊢
    -- What the pool reports for the document, whatever comes of it.
    have reported : Pool.report (job (sourceRun e)) (results, w) x =
        (results ++ [(x.1, settle x.1 (sourceRun e x.2 w).1)], (sourceRun e x.2 w).2) := by
      rw [Pool.report, perform_job]
      rfl
    rw [List.foldl_cons, reported]
    rcases ran : sourceRun e x.2 w with ⟨(fault | message) | vars, w'⟩
    · rw [oneByOne_cons_error ran] at calm ⊢
      obtain ⟨outcomes, ending, own, folded, same, loop⟩ := ih _ _ calm
      refine ⟨.error fault :: outcomes, ending, ?_, folded, ?_, loop⟩
      · intro fault' hmem
        rcases List.mem_cons.1 hmem with same | hmem
        · cases same
          exact ofDocument_of_sourceRun (congrArg Prod.fst ran)
        · exact own fault' hmem
      · rw [same, List.map_append, List.append_assoc]
        rfl
    · rw [oneByOne_cons_abort ran] at calm
      exact absurd rfl (calm message)
    · rw [oneByOne_cons_ok ran] at calm ⊢
      obtain ⟨outcomes, ending, own, folded, same, loop⟩ := ih _ _ calm
      refine ⟨.ok vars :: outcomes, ending, ?_, folded, ?_, loop⟩
      · intro fault' hmem
        rcases List.mem_cons.1 hmem with no | hmem
        · cases no
        · exact own fault' hmem
      · rw [same, List.map_append, List.append_assoc]
        rfl

theorem placed_snd {α : Type} (items : List α) : (Pool.placed items).map Prod.snd = items := by
  rw [Pool.placed, List.map_map]
  exact List.zipIdx_map_fst 0 items

/-- **One worker is the loop over the documents.** Documents of any kind are given to a pool with one
worker and a queue of any length which nobody asks to stop, and no function breaks off in the loop over
the same documents from the same world. Then, however dispatcher and worker interleave, somebody can
move as long as not both have come to their end, for at most so many moves as are left at the start. At
the end the documents are merged into the table that the loop gives, or into its list of errors, and
the world is the one that the loop leaves, with its cache and all that has happened. -/
theorem merge_oneByOne {capacity : Nat} {log : List (Pool.Act × Bool)}
    {c : Pool.Config (String × String) (Outcome (Table Value)) World}
    (calm : ∀ message, ((oneByOne e .none sources).run w).1 ≠ .error (.abort message))
    (run : Pool.Run (job (sourceRun e)) capacity (.start 1 sources w) log c)
    (never : Pool.NeverStopped (job (sourceRun e)) w log) :
    (c.ended = false → ∃ act d, Pool.Step (job (sourceRun e)) capacity act c d) ∧
    log.length ≤ (Pool.Config.start 1 sources w :
      Pool.Config (String × String) (Outcome (Table Value)) World).remaining ∧
    (c.ended = true → (oneByOne e .none sources).run w =
      (.ok (merge (collect (sources.map Prod.fst) c.results)), c.shared)) := by
  have own := Pool.ownRun_of_neverStopped (stopped_stop_job _) run never
  obtain ⟨moves, bound⟩ := Pool.runs_to_end own
  refine ⟨moves, bound, fun ended => ?_⟩
  have one : Pool.workerCount 1 sources = 1 := by
    unfold Pool.workerCount
    omega
  have settled := Pool.results_of_single own one never ended
  rw [← placed_snd sources] at calm
  obtain ⟨outcomes, ending, ofDocuments, folded, same, loop⟩ := oneByOne_of_foldl _ _ [] calm
  obtain rfl : ending = (c.results, c.shared) := folded.symm.trans settled.symm
  have complete : Pool.skipped sources.length c.results = [] :=
    Pool.skipped_eq_nil (Pool.completed_perm run never ended)
  have documents : (collect (sources.map Prod.fst) c.results).map Document.result = outcomes := by
    rw [collect, List.length_map, complete, List.map_nil, List.append_nil, List.map_map]
    exact same
  rw [merge, documents, gather_eq_outcome ofDocuments]
  rwa [placed_snd] at loop

/-- A document that sets a name, one that fails, and one that sets the name again. -/
def contested : List (String × String) :=
  [("first", "a"), ("second", "b=1/0"), ("third", "a=1")]

/-- What each of the three sources gives by itself. Only the second fails, and the other two set one
name. -/
theorem sourceRun_contested :
    sourceRun brittle ("first", "a") nowhere = (.ok [("a", .bool true)], nowhere) ∧
    sourceRun brittle ("second", "b=1/0") nowhere =
      (.error (.error (.eval (.located "<input>" .start .divisionByZero))), nowhere) ∧
    sourceRun brittle ("third", "a=1") nowhere = (.ok [("a", .int 1)], nowhere) := by
  have first : Node.parse "a" "first" = .ok [.assign ⟨"a", .start⟩ (.literal (.bool true)) .flag] := by
    have tokens : Token.list "a".toList =
        .ok [⟨.ident, "a", .start, none, none⟩, .endOfInput ⟨1, 2⟩] :=
      Token.listFrom_step rfl rfl rfl (Token.listFrom_nil _)
    exact Rule.readText_ok_iff.2 ⟨_, _, tokens, rfl⟩
  have second : Node.parse "b=1/0" "second" = .ok [.assign ⟨"b", .start⟩
      (.binary .div (.literal (.int 1)) (.literal (.int 0))) .equals] := by
    have tokens : Token.list "b=1/0".toList =
        .ok [⟨.ident, "b", .start, none, none⟩, ⟨.assign, "=", ⟨1, 2⟩, none, none⟩,
          ⟨.number, "1", ⟨1, 3⟩, none, none⟩, ⟨.slash, "/", ⟨1, 4⟩, none, none⟩,
          ⟨.number, "0", ⟨1, 5⟩, none, none⟩, .endOfInput ⟨1, 6⟩] := by
      refine Token.listFrom_step rfl rfl rfl ?_
      refine Token.listFrom_step rfl rfl rfl ?_
      refine Token.listFrom_step rfl rfl rfl ?_
      refine Token.listFrom_step rfl rfl rfl ?_
      exact Token.listFrom_step rfl rfl rfl (Token.listFrom_nil _)
    exact Rule.readText_ok_iff.2 ⟨_, _, tokens, rfl⟩
  have third : Node.parse "a=1" "third" =
      .ok [.assign ⟨"a", .start⟩ (.literal (.int 1)) .equals] := by
    have tokens : Token.list "a=1".toList =
        .ok [⟨.ident, "a", .start, none, none⟩, ⟨.assign, "=", ⟨1, 2⟩, none, none⟩,
          ⟨.number, "1", ⟨1, 3⟩, none, none⟩, .endOfInput ⟨1, 4⟩] := by
      refine Token.listFrom_step rfl rfl rfl ?_
      refine Token.listFrom_step rfl rfl rfl ?_
      exact Token.listFrom_step rfl rfl rfl (Token.listFrom_nil _)
    exact Rule.readText_ok_iff.2 ⟨_, _, tokens, rfl⟩
  unfold sourceRun
  rw [first, second, third, Run.ofParse_bind, Run.get_bind, Run.ofParse_bind, Run.get_bind,
    Run.ofParse_bind, Run.get_bind, Engine.evalDocument_apply, Engine.evalDocument_apply,
    Engine.evalDocument_apply]
  exact ⟨rfl, rfl, rfl⟩

/-- The error of the second document is all that is reported. -/
theorem merge_oneByOne_contested :
    ∃ log c, Pool.Run (job (sourceRun brittle)) 0 (.start 1 contested nowhere) log c ∧
      Pool.NeverStopped (job (sourceRun brittle)) nowhere log ∧ c.ended = true ∧
      (∀ message, ((oneByOne brittle .none contested).run nowhere).1 ≠ .error (.abort message)) ∧
      merge (collect ["first", "second", "third"] c.results) =
        .error ⟨[.eval (.located "<input>" .start .divisionByZero)]⟩ ∧ c.shared = nowhere := by
  obtain ⟨first, second, third⟩ := sourceRun_contested
  have loop : (oneByOne brittle .none contested).run nowhere =
      (.ok (.error ⟨[.eval (.located "<input>" .start .divisionByZero)]⟩), nowhere) := by
    show oneByOne brittle .none contested nowhere = _
    rw [contested, oneByOne_cons_ok first, oneByOne_cons_error second, oneByOne_cons_ok third]
    rfl
  have calm : ∀ message,
      ((oneByOne brittle .none contested).run nowhere).1 ≠ .error (.abort message) := by
    rw [loop]
    exact fun _ => nofun
  have alone : ∀ source ∈ contested, ((sourceRun brittle source).run nowhere).2 = nowhere := by
    refine List.forall_mem_cons.2 ⟨congrArg Prod.snd first, List.forall_mem_cons.2
      ⟨congrArg Prod.snd second, List.forall_mem_singleton.2 (congrArg Prod.snd third)⟩⟩
  obtain ⟨log, c, own, ended, -⟩ :=
    Pool.exists_run_inOrder (job (sourceRun brittle)) 0 contested nowhere
  have never := Pool.neverStopped_of_ownRun (leavesAlone_job alone) own rfl
  obtain ⟨-, -, settled⟩ := merge_oneByOne calm own.run never
  have same := loop.symm.trans (settled ended)
  exact ⟨log, c, own.run, never, ended, calm, (Except.ok.inj (congrArg Prod.fst same)).symm,
    (congrArg Prod.snd same).symm⟩

end BlockConfig.Batch
