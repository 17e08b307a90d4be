import BlockConfig.Builtin
import BlockConfig.Eval.Inclusion
import BlockConfig.Node.Parser
import BlockConfig.Text.Inspect

/-!
Engines: reading and evaluating whole documents.

An engine is used through runs: computations that change the world and end with a result or stop.
A run stops with an error of its own (`RunError`), or because a registered function broke off, which
only a pool turns into an error.
-/

set_option autoImplicit false

namespace BlockConfig

/-- The errors of runs. -/
inductive RunError where
  | parse (e : ParseError)
  | eval (e : EvalError)
  | unreadable (path reason : String)
  | cancelled (skipped : Nat)
  | notDispatched
  | workerAbort (item : String)
deriving DecidableEq, Repr

namespace RunError

/-- The message of an error. -/
def message : RunError → String
  | parse e => e.text
  | eval e => e.message
  | unreadable path reason => "Cannot read " ++ Text.inspect path ++ ": " ++ reason
  | cancelled skipped => "Cancelled before " ++ skipped.repr ++ " item(s) were dispatched"
  | notDispatched => "Not dispatched: the run was cancelled"
  | workerAbort item => "Worker panicked while processing " ++ item

end RunError

/-- How a run stops. -/
inductive Stop where
  | error (e : RunError)
  | abort (message : String)
deriving DecidableEq, Repr

/-- A computation with the world. -/
abbrev Run (α : Type) : Type := ExceptT Stop (StateM World) α

namespace Run

variable {α : Type}

/-- One run after another, from a world. -/
theorem bind_apply {β : Type} (x : Run α) (f : α → Run β) (w : World) :
    (x >>= f) w = match x w with
      | (.ok a, w') => f a w'
      | (.error stop, w') => (.error stop, w') := by
  show (match x w with | (r, w') => ExceptT.bindCont f r w') = _
  rcases x w with ⟨stop | a, w'⟩ <;> rfl

/-- Stops with an error. -/
def fail (e : RunError) : Run α :=
  throw (.error e)

/-- The result of reading a text. -/
def ofParse : Except ParseError α → Run α
  | .ok a => pure a
  | .error e => fail (.parse e)

theorem get_bind (f : World → Run α) (w : World) : ((get : Run World) >>= f) w = f w w :=
  rfl

theorem ofParse_bind {β : Type} (a : α) (f : α → Run β) (w : World) :
    (ofParse (.ok a) >>= f) w = f a w :=
  rfl

/-- An evaluation in a scope: its result and the scope that it leaves. -/
def ofEval (scope : Scope) (act : Eval α) : Run (α × Scope) := fun w =>
  match act ⟨scope, w⟩ with
  | (.ok a, s) => (.ok (a, s.scope), s.world)
  | (.error (.error e), s) => (.error (.error (.eval e)), s.world)
  | (.error (.abort message), s) => (.error (.abort message), s.world)

end Run

namespace Engine

/-- An engine with the builtin functions. -/
def new (settings : Settings) (runner : Runner) : Engine :=
  ⟨settings, .builtins, runner⟩

/-- Documents that are not files: their relative targets are in the working directory. -/
def inline (e : Engine) (h : Host) : Source :=
  ⟨e, "<input>", h.workingDirectory, []⟩

/-- The document in a file, which is open. -/
def ofFile (e : Engine) (h : Host) (path : String) : Source :=
  (e.inline h).nested path ((h.canonical? path).getD path)

/-- Reads the file at a path. -/
def readFile (path : String) : Run String := do
  match (← get).host.readFile path with
  | .ok text => return text
  | .error fault => Run.fail (.unreadable path fault.message)

/-- Reads the document in the file at a path. -/
def parseFile (path : String) : Run (List Node) := do
  Run.ofParse (Node.parse (← readFile path) path)

/-- The variables of a document that is evaluated on its own. -/
def evalDocument (src : Source) (nodes : List Node) : Run (Table Value) := do
  let (_, scope) ← Run.ofEval (.root []) (src.run nodes)
  return scope.own

/-- The variables of a document are those that its statements leave at the top. -/
theorem evalDocument_apply (src : Source) (nodes : List Node) (w : World) :
    evalDocument src nodes w = match src.run nodes ⟨.root [], w⟩ with
      | (.ok (), s) => (.ok s.scope.own, s.world)
      | (.error (.error e), s) => (.error (.error (.eval e)), s.world)
      | (.error (.abort message), s) => (.error (.abort message), s.world) := by
  unfold evalDocument
  rw [Run.bind_apply]
  unfold Run.ofEval
  rcases src.run nodes ⟨.root [], w⟩ with ⟨(e | message) | a, s⟩ <;> rfl

/-- Evaluates a text as a document. -/
def evalText (e : Engine) (source : String) : Run (Table Value) := do
  let nodes ← Run.ofParse (Node.parse source "<input>")
  evalDocument (e.inline (← get).host) nodes

/-- Evaluating a text that can be read is evaluating its document. -/
theorem evalText_apply {e : Engine} {source : String} {nodes : List Node}
    (h : Node.parse source "<input>" = .ok nodes) (w : World) :
    e.evalText source w = evalDocument (e.inline w.host) nodes w := by
  unfold evalText
  rw [h, Run.ofParse_bind, Run.get_bind]

/-- Evaluates the document in a file. -/
def evalFile (e : Engine) (path : String) : Run (Table Value) := do
  let nodes ← parseFile path
  evalDocument (e.ofFile (← get).host path) nodes

/-- Evaluating a file is evaluating its document, if it has one. -/
theorem evalFile_apply (e : Engine) (path : String) (w : World) :
    e.evalFile path w = match parseFile path w with
      | (.ok nodes, w') => evalDocument (e.ofFile w'.host path) nodes w'
      | (.error stop, w') => (.error stop, w') := by
  unfold evalFile
  rw [Run.bind_apply]
  rcases parseFile path w with ⟨stop | nodes, w'⟩
  · rfl
  · dsimp only
    rw [Run.get_bind]

/-- The value of an expression in the current scope. -/
def evalExpression (e : Engine) (text : String) (s : State) : Except Stop Value × State :=
  match Node.parseExpression text "<expr>" with
  | .error error => (.error (.error (.parse error)), s)
  | .ok node =>
    match node.evalValue (e.inline s.world.host) s with
    | (.ok v, s) => (.ok v, s)
    | (.error (.error error), s) => (.error (.error (.eval error)), s)
    | (.error (.abort message), s) => (.error (.abort message), s)

end Engine

end BlockConfig
