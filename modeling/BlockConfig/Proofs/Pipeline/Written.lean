import BlockConfig.Proofs.Eval.Parts
import BlockConfig.Proofs.Inclusion.Outcome

/-!
A pipeline without arrows.

`Pipeline.order` gives the names of the steps, and `Eval.runSteps` finds for each name the step to
run. Where there are no arrows the names are those of the body as it is written, but a name stands
for the first step that has it. So the steps run as written after each has been given the expression
of the first step of its name (`firstOfName`), which is nothing new as long as two steps of one name
have one expression.

What it is to run as written is `runInTurn`: the expressions of a list of steps one after another,
each evaluated at the place where it stands, with no name looked up.
-/

set_option autoImplicit false

namespace BlockConfig

/-- Whether a statement of a pipeline is a step or nothing at all. -/
def Node.isPlainStep : Node → Bool
  | .assign .. | .comment _ => true
  | _ => false

namespace Eval

variable {src : Source} {hooks : Hooks} {body : List Node}

/-! ## 1. Steps in the order in which they stand -/

/-- Runs steps one after another, each bound to its name before the next; `output` is the result so
far. -/
def runInTurn (src : Source) (hooks : Hooks) (output : Value) : List (String × Node) → Eval Value
  | [] => return output
  | (name, value) :: steps => do
    let v ← ofExcept (stepResult name (← value.evalWith src hooks))
    modifyScope fun s => s.set name v
    runInTurn src hooks v steps

/-- Runs an evaluation in a scope inside the current one, which comes back whatever happens. -/
def enclosed (act : Eval Value) : Eval Value := fun s =>
  ((act s.inside).1, { (act s.inside).2 with scope := s.scope })

/-! ## 2. Names that stand for steps -/

/-- Steps, each with the expression of the first one of its name. -/
def firstOfName (steps : List (String × Node)) : List (String × Node) :=
  steps.map fun step => (step.1, (steps.lookup step.1).getD step.2)

theorem exists_lookup {steps : List (String × Node)} {step : String × Node} (h : step ∈ steps) :
    ∃ n, steps.lookup step.1 = some n ∧ (step.1, n) ∈ steps := by
  have found := List.lookup_isSome_iff.mpr ⟨step, h, beq_self_eq_true step.1⟩
  obtain ⟨n, found⟩ := Option.isSome_iff_exists.mp found
  obtain ⟨before, after, rfl, -⟩ := List.lookup_eq_some_iff.mp found
  exact ⟨n, found, by simp⟩

/-- Where two steps of one name have one expression, the first one of a name is as good as any. -/
theorem firstOfName_eq_self {steps : List (String × Node)}
    (same : ∀ step ∈ steps, ∀ step' ∈ steps, step.1 = step'.1 → step.2 = step'.2) :
    firstOfName steps = steps := by
  have unchanged (step : String × Node) (mem : step ∈ steps) :
      (step.1, (steps.lookup step.1).getD step.2) = id step := by
    obtain ⟨n, found, mem'⟩ := exists_lookup mem
    rw [found, Option.getD_some]
    exact Prod.ext rfl (same step mem _ mem' rfl).symm
  rw [firstOfName, List.map_congr_left unchanged, List.map_id]

theorem arrowsOf_of_isPlainStep (plain : ∀ n ∈ body, n.isPlainStep) : arrowsOf body = [] := by
  refine List.filterMap_eq_nil_iff.mpr fun n mem => ?_
  have := plain n mem
  cases n <;> simp_all [Node.isPlainStep]

/-- The names of some steps of a body stand for the first ones of these names. -/
theorem runSteps_names (output : Value) {steps : List (String × Node)}
    (known : ∀ step ∈ steps, step ∈ Node.stepNodes body) :
    runSteps (stepsOf src hooks body) output (steps.map Prod.fst) =
      runInTurn src hooks output
        (steps.map fun step => (step.1, ((Node.stepNodes body).lookup step.1).getD step.2)) := by
  induction steps generalizing output with
  | nil => rfl
  | cons step steps ih =>
    obtain ⟨n, found, -⟩ := exists_lookup (known step (List.mem_cons_self ..))
    have rest (output : Value) := ih output fun step mem => known step (.tail _ mem)
    simp only [List.map_cons, runSteps, runInTurn, Inherited.lookup_stepsOf, found, Option.map_some,
      Option.getD_some, rest]

/-- What a pipeline without arrows does, whatever the names of its steps are. -/
theorem evalWith_pipeline_firstOfName (plain : ∀ n ∈ body, n.isPlainStep) (pos : Position) :
    (Node.pipeline body pos).evalWith src hooks =
      enclosed (runInTurn src hooks .null (firstOfName (Node.stepNodes body))) := by
  have order : Pipeline.order ((stepsOf src hooks body).map Prod.fst) (arrowsOf body) =
      .ok ((Node.stepNodes body).map Prod.fst) := by
    rw [Inherited.names_stepsOf, arrowsOf_of_isPlainStep plain]
    rfl
  rw [Node.evalWith, runPipeline, order]
  funext s
  rw [firstOfName, ← runSteps_names _ fun _ mem => mem]
  rfl

/-! ## 3. Running as written -/

/-- **A pipeline without arrows runs as it is written** if two steps of one name have the same
expression, so in particular if no name comes twice: the value or the error and the state that it
leaves are those of its expressions evaluated one after another, each once, in a scope inside the
current one. If a name does come twice, each of its steps evaluates the expression of the first. -/
theorem evalWith_pipeline_written (plain : ∀ n ∈ body, n.isPlainStep) (pos : Position) :
    ((∀ step ∈ Node.stepNodes body, ∀ step' ∈ Node.stepNodes body,
        step.1 = step'.1 → step.2 = step'.2) →
      (Node.pipeline body pos).evalWith src hooks =
        enclosed (runInTurn src hooks .null (Node.stepNodes body))) ∧
    (Node.pipeline body pos).evalWith src hooks =
      enclosed (runInTurn src hooks .null (firstOfName (Node.stepNodes body))) := by
  refine ⟨fun same => ?_, evalWith_pipeline_firstOfName plain pos⟩
  rw [evalWith_pipeline_firstOfName plain pos, firstOfName_eq_self same]

/-- A step, and one that reads it, with a comment between them. -/
def sampleSteps : List Node :=
  [.assign ⟨"a", ⟨2, 3⟩⟩ (.literal (.int 1)) .equals, .comment "# and then",
    .assign ⟨"b", ⟨4, 3⟩⟩ (.list [.ident "a", .ident "a"]) .equals]

/-- The two steps with the comment, evaluated where the name of the first is bound already: the second reads
what the first has given, and the scope is left as it was. -/
theorem evalWith_pipeline_sampleSteps :
    let src : Source := ⟨⟨.default, [], fun _ _ => .error "no commands"⟩, "d", "/", []⟩
    let hooks : Hooks := ⟨fun _ => fail (.interpolation .tooDeep), fun _ => fail .execDisabled⟩
    let s : State := ⟨.root [("a", .int 7)], ⟨⟨⟨[], []⟩, "/", [], []⟩, .fresh, [], []⟩⟩
    (∀ n ∈ sampleSteps, n.isPlainStep) ∧
      (∀ step ∈ Node.stepNodes sampleSteps, ∀ step' ∈ Node.stepNodes sampleSteps,
        step.1 = step'.1 → step.2 = step'.2) ∧
      (Node.pipeline sampleSteps ⟨1, 5⟩).evalWith src hooks s =
        (.ok (.list [.int 1, .int 1]), s) := by
  intro src hooks s
  have plain : ∀ n ∈ sampleSteps, n.isPlainStep := by decide
  have same : ∀ step ∈ Node.stepNodes sampleSteps, ∀ step' ∈ Node.stepNodes sampleSteps,
      step.1 = step'.1 → step.2 = step'.2 := by
    simp [sampleSteps, Node.stepNodes]
  refine ⟨plain, same, ?_⟩
  rw [(evalWith_pipeline_written plain ⟨1, 5⟩).1 same]
  rfl

/-- Of two steps of one name the second one evaluates what the first one does, so that a pipeline
and its steps as they are written have different results. -/
theorem evalWith_pipeline_repeated (s : State) (pos : Position) :
    let body : List Node := [.assign ⟨"a", ⟨2, 3⟩⟩ (.literal (.int 1)) .equals,
      .assign ⟨"a", ⟨3, 3⟩⟩ (.literal (.int 2)) .equals]
    (Node.pipeline body pos).evalWith src hooks s = (.ok (.int 1), s) ∧
      enclosed (runInTurn src hooks .null (Node.stepNodes body)) s = (.ok (.int 2), s) :=
  ⟨rfl, rfl⟩

end Eval

end BlockConfig
