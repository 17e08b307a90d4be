import BlockConfig.Engine
import BlockConfig.Pool

/-!
Many documents or many expressions at once.

Documents are read and evaluated each on its own; a document that the pool did not come to is
reported as such. Expressions are evaluated each in a scope of its own inside one shared scope, and
their results are given in the order of the expressions, each with its place. Both can be gathered:
documents into one table, in which later ones win, expressions into a list of values. Gathering
fails if anything failed, with all errors in order, and at their end one error that counts the items
not come to.
-/

set_option autoImplicit false

namespace BlockConfig

/-- Several errors. -/
structure Errors where
  errors : List RunError
deriving DecidableEq, Repr

namespace Errors

/-- The lines of the message from error number `n` on. -/
def lines : Nat → List RunError → String
  | _, [] => ""
  | n, e :: es => "\n  [" ++ n.repr ++ "] " ++ e.message ++ lines (n + 1) es

/-- The message of several errors: their number, and each on a line of its own. -/
def message (e : Errors) : String :=
  e.errors.length.repr ++ " error(s) occurred" ++ lines 1 e.errors

end Errors

namespace Batch

variable {α β : Type}

/-- What became of an item. -/
abbrev Outcome (β : Type) : Type := Except RunError β

/-- The outcome of a run on an item, or the message with which it broke off. -/
def outcome : Except Stop β → Except String (Outcome β)
  | .ok b => .ok (.ok b)
  | .error (.error e) => .ok (.error e)
  | .error (.abort message) => .error message

/-- Runs as the work of a pool; breaking off is an error of the item. The flag is the one that
registered functions can set. -/
def job (work : α → Run β) : Job α (Outcome β) World where
  work := fun _ item w =>
    match (work item).run w with
    | (r, w) => (outcome r, w)
  onAbort := fun index message => .error (.workerAbort ("#" ++ index.repr ++ ": " ++ message))
  stopped := fun w => w.memory.cancelled
  stop := fun w => { w with memory := { w.memory with cancelled := true } }

/-- The outcomes of items that were all come to or not, with their places. -/
def run (work : α → Run β) (items : List α) (w : World) :
    List (Nat × Outcome β) × World :=
  Pool.runInOrder (job work) 0 items w

/-! ## Documents -/

/-- A document and what became of it. -/
structure Document where
  name : String
  result : Outcome (Table Value)

/-- Reads and evaluates a text under a name. -/
def sourceRun (e : Engine) (source : String × String) : Run (Table Value) := do
  let nodes ← Run.ofParse (Node.parse source.2 source.1)
  Engine.evalDocument (e.inline (← get).host) nodes

/-- Documents by their names: those that were come to, in the order in which they were done, then
the others. -/
def collect (names : List String) (results : List (Nat × Outcome (Table Value))) :
    List Document :=
  results.map (fun (i, r) => ⟨names.getD i "", r⟩) ++
    (Pool.skipped names.length results).map fun i => ⟨names.getD i "", .error .notDispatched⟩

/-- Reads and evaluates texts with names. -/
def parseSources (e : Engine) (sources : List (String × String)) (w : World) :
    List Document × World :=
  let (results, w) := run (sourceRun e) sources w
  (collect (sources.map Prod.fst) results, w)

/-- Reads and evaluates files. -/
def parseFiles (e : Engine) (paths : List String) (w : World) : List Document × World :=
  let (results, w) := run e.evalFile paths w
  (collect paths results, w)

/-! ## Gathering -/

/-- Whether an outcome says that the pool did not come to the item. -/
def isSkipped : Outcome β → Bool
  | .error .notDispatched => true
  | _ => false

/-- The errors among outcomes, and at their end how many items the pool did not come to. -/
def errorsOf (outcomes : List (Outcome β)) : List RunError :=
  let failures := outcomes.filterMap fun o => match o with
    -- Items that were not come to are counted below.
    | .error .notDispatched => none
    | .error e => some e
    | .ok _ => none
  let skipped := outcomes.countP isSkipped
  if skipped = 0 then failures else failures ++ [.cancelled skipped]

/-- The values of outcomes. -/
def valuesOf (outcomes : List (Outcome β)) : List β :=
  outcomes.filterMap fun o => match o with
    | .ok b => some b
    | .error _ => none

/-- The values of outcomes, or all errors. -/
def gather (outcomes : List (Outcome β)) : Except Errors (List β) :=
  match errorsOf outcomes with
  | [] => .ok (valuesOf outcomes)
  | errors => .error ⟨errors⟩

/-- The variables of all documents in one table. -/
def merge (documents : List Document) : Except Errors (Table Value) :=
  (gather (documents.map Document.result)).map fun tables => tables.foldl Table.union []

/-! ## Expressions -/

/-- Evaluates an expression in a scope inside one with the given variables. -/
def expressionRun (e : Engine) (vars : Table Value) (text : String) : Run Value := fun w =>
  match e.evalExpression text ⟨(Scope.root vars).child, w⟩ with
  | (r, s) => (r, s.world)

/-- An expression with its place, and what became of it. -/
structure Entry where
  index : Nat
  expression : String
  result : Outcome Value

/-- One entry for each expression, in the order of the expressions. -/
def entries (texts : List String) (results : List (Nat × Outcome Value)) : List Entry :=
  texts.zipIdx.map fun (text, i) =>
    ⟨i, text, ((results.find? fun r => r.1 = i).map Prod.snd).getD (.error .notDispatched)⟩

/-- The outcome of each expression, in the order of the expressions. -/
def evaluate (e : Engine) (vars : Table Value) (texts : List String) (w : World) :
    List (Outcome Value) × World :=
  let (results, w) := run (expressionRun e vars) texts w
  ((entries texts results).map Entry.result, w)

end Batch

end BlockConfig
