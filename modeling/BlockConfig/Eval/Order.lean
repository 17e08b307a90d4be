import BlockConfig.EvalError

/-!
The order of a pipeline's steps.

Without arrows the steps run as written. With arrows they run along a path: it begins at the first
arrow whose source is no arrow's target, or at the first arrow if all sources are targets, and goes
on, as long as there is one, with the first arrow from where it stands to a step that it has not
passed. Steps that are not on the path do not run.
-/

set_option autoImplicit false

namespace BlockConfig.Pipeline

/-- Where the path begins. -/
def start? (arrows : List (String × String)) : Option String :=
  match arrows.find? fun a => !arrows.any fun b => b.2 = a.1 with
  | some a => some a.1
  | none => arrows.head?.map Prod.fst

/-- The step after `here`, if there is one that has not been passed. -/
def next? (arrows : List (String × String)) (passed : List String) (here : String) :
    Option String :=
  (arrows.find? fun a => a.1 = here ∧ a.2 ∉ passed).map Prod.snd

/-- The path on from `here`, at most `n` steps of it; `passed` holds `here` and the steps before. -/
def follow (arrows : List (String × String)) : Nat → List String → String → List String
  | 0, _, _ => []
  | n + 1, passed, here =>
    match next? arrows passed here with
    | some there => there :: follow arrows n (there :: passed) there
    | none => []

/-- The first name in an arrow that is no step. -/
def unknownStep? (steps : List String) (arrows : List (String × String)) : Option String :=
  (arrows.flatMap fun a => [a.1, a.2]).find? fun name => !steps.contains name

/-- The steps to run, in order. A path passes each arrow's target once at most, so it has no more
steps than there are arrows, and the first one. -/
def order (steps : List String) (arrows : List (String × String)) :
    Except PipelineFault (List String) :=
  match start? arrows with
  -- No arrows, no path.
  | none => .ok steps
  | some first =>
    match unknownStep? steps arrows with
    | some name => .error (.unknownStep name)
    | none => .ok (first :: follow arrows arrows.length [first] first)

end BlockConfig.Pipeline
