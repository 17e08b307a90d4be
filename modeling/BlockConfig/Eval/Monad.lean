import BlockConfig.EvalError
import BlockConfig.Host
import BlockConfig.Node
import BlockConfig.Registry
import BlockConfig.Scope

/-!
The setting of an evaluation.

Evaluating a node reads what is fixed while one document is evaluated (`Source`) and changes what is
not (`State`): the scope, and the `World`, in which the cache of included documents, the memory of
registered functions and the trace of events live. A failure leaves the state as it had become, so
that what a failing statement did before it failed remains done.
-/

set_option autoImplicit false

namespace BlockConfig

/-- What an engine is told when it is made. -/
structure Settings where
  /-- How many workers a pool has; as many as the machine has cores if zero. -/
  workers : Nat
  /-- How many items may wait for a worker. -/
  queueCapacity : Nat
  /-- Whether commands may be run. -/
  allowExec : Bool
  /-- Whether remote documents may be included. -/
  allowRemote : Bool
  /-- Directories in which documents are looked for that are not beside the one including them. -/
  includePaths : List String
  /-- Variables that are preferred to those of the process. -/
  overrides : Table String

namespace Settings

/-- The settings of an engine that is told nothing. -/
def default : Settings :=
  ⟨0, 64, true, true, [], []⟩

/-- The value of an environment variable: an override if there is one, else the process's. A
variable without content counts as missing. -/
def envValue? (s : Settings) (h : Host) (name : String) : Option String :=
  match Table.find? s.overrides name with
  | some v => if v = "" then none else some v
  | none =>
    match Table.find? h.environment name with
    | some v => if v = "" then none else some v
    | none => none

end Settings

/-- What an engine is made of. -/
structure Engine where
  settings : Settings
  functions : Registry
  runner : Runner

/-- What evaluations share and change. -/
structure World where
  host : Host
  memory : Memory
  /-- The documents that have been included, by their keys. -/
  cache : Table (List Node)
  /-- What has happened, the latest last. -/
  trace : List Event

/-- What an evaluation changes. -/
structure State where
  scope : Scope
  world : World

/-- How an evaluation ends early: with an error, or because a registered function broke off. -/
inductive Fault where
  | error (e : EvalError)
  | abort (message : String)
deriving DecidableEq, Repr

/-- A document under evaluation: by which engine, under which name, where its relative targets are
looked for, and which documents are open, the innermost last. -/
structure Source where
  engine : Engine
  file : String
  base : String
  opened : List String

/-- An evaluation with a result of type `α`. -/
abbrev Eval (α : Type) : Type := ExceptT Fault (StateM State) α

namespace Eval

variable {α : Type}

/-- Ends an evaluation with an error. -/
def fail (e : EvalError) : Eval α :=
  throw (.error e)

/-- The result of something that may fail. -/
def ofExcept : Except EvalError α → Eval α
  | .ok a => pure a
  | .error e => fail e

/-- The current scope. -/
def scope : Eval Scope :=
  return (← get).scope

/-- The current world. -/
def world : Eval World :=
  return (← get).world

/-- Changes the current scope. -/
def modifyScope (f : Scope → Scope) : Eval Unit :=
  modify fun s => { s with scope := f s.scope }

/-- Changes the current world. -/
def modifyWorld (f : World → World) : Eval Unit :=
  modify fun s => { s with world := f s.world }

/-- Notes an event. -/
def note (e : Event) : Eval Unit :=
  modifyWorld fun w => { w with trace := w.trace ++ [e] }

/-- Runs an evaluation and gives its result or its error. -/
def attempt (act : Eval α) : Eval (Except EvalError α) := fun s =>
  match act s with
  | (.ok a, s) => (.ok (.ok a), s)
  | (.error (.error e), s) => (.ok (.error e), s)
  | (.error (.abort message), s) => (.error (.abort message), s)

/-- Adds a place to the error of an evaluation. -/
def locating (file : String) (pos : Option Position) (act : Eval α) : Eval α := fun s =>
  match act s with
  | (.ok a, s) => (.ok a, s)
  | (.error (.error e), s) =>
    match pos with
    | some p => (.error (.error (e.locate file p)), s)
    | none => (.error (.error e), s)
  | (.error (.abort message), s) => (.error (.abort message), s)

/-- Runs an evaluation in another scope and gives the table that this scope ends up with. The
current scope stays as it is. -/
def within (other : Scope → Scope) (act : Eval Unit) : Eval (Table Value) := fun s =>
  match act { s with scope := other s.scope } with
  | (.ok (), s') => (.ok s'.scope.own, { s' with scope := s.scope })
  | (.error fault, s') => (.error fault, { s' with scope := s.scope })

/-- Runs an evaluation in a scope inside the current one. -/
def inChild (act : Eval Unit) : Eval (Table Value) :=
  within Scope.child act

/-- Runs an evaluation in a scope with nothing around it. -/
def inFresh (act : Eval Unit) : Eval (Table Value) :=
  within (fun _ => Scope.root []) act

/-- Calls a registered function. -/
def call (f : Callable) (args : List Value) : Eval Value := fun s =>
  let (reply, memory) := f args s.world.memory
  let s := { s with world := { s.world with memory := memory } }
  match reply with
  | .value v => (.ok (Value.ofCall (.ok v)), s)
  | .error message => (.ok (Value.ofCall (.error message)), s)
  | .abort message => (.error (.abort message), s)

end Eval

end BlockConfig
