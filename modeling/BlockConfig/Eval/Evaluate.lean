import BlockConfig.Eval.Calls
import BlockConfig.Eval.Interpolation
import BlockConfig.Eval.Member
import BlockConfig.Eval.Order
import BlockConfig.Value.Arithmetic

/-!
Evaluating a node.

Evaluation follows the tree. Two things lead out of it, to trees that are read only then: an
expression in a string, and an included document. What to do with those is given from outside, as
`Hooks`, so that evaluation itself is recursion on the tree; `Eval.Inclusion` supplies them.

Statements of a body run in order, and an error is located in the statement that failed. A body has
a scope of its own, whose table is its result; the statements of an `IF` branch run in the scope
around it. Operands, items and arguments are evaluated from left to right, and of `??` the right
operand only if it is needed.
-/

set_option autoImplicit false

namespace BlockConfig

/-- How evaluation goes on where it leaves the tree. -/
structure Hooks where
  /-- The value of an expression that was found in a string. -/
  splice : Node → Eval Value
  /-- Includes the document that a target names. -/
  inclusion : String → Eval Value

namespace Eval

/-- A variable of the environment. -/
def envValue? (src : Source) (name : String) : Eval (Option String) :=
  return src.engine.settings.envValue? (← world).host name

/-- The text that takes the place of a hole. -/
def fillHole (src : Source) (hooks : Hooks) (inner : List Char) : Eval String := do
  match Hole.read inner src.file with
  | .empty => fail (.interpolation .empty)
  | .reference name default => return (← envValue? src name).getD default
  | .expression node => return (← hooks.splice node).print
  | .unreadable reason =>
    fail (.interpolation (.unreadable (String.ofList inner) reason))

/-- The pieces of a string one after another, holes filled. -/
def joinPieces (src : Source) (hooks : Hooks) (whole : String) : List Piece → Eval String
  | [] => return ""
  | .text cs :: pieces => do
    let rest ← joinPieces src hooks whole pieces
    return String.ofList cs ++ rest
  | .hole inner :: pieces => do
    let here ← fillHole src hooks inner
    let rest ← joinPieces src hooks whole pieces
    return here ++ rest
  | .unclosed :: _ => fail (.interpolation (.unmatched whole))

/-- A string with its holes filled. -/
def interpolate (src : Source) (hooks : Hooks) (s : String) : Eval String :=
  joinPieces src hooks s (Piece.split s.toList)

/-- A value that is written out. -/
def literalValue (src : Source) (hooks : Hooks) : Literal → Eval Value
  | .str s _ _ => return .str (← interpolate src hooks s)
  | .int i => return .int i
  | .float x => return .float x
  | .bool b => return .bool b
  | .null => return .null

/-- Whether a choice takes its first branch: a truth value says so, and so does a call's result or
a list of two that begins with one. -/
def choose (condition : Value) : Except EvalError Bool :=
  match condition with
  | .bool b => .ok b
  | .tuple [.bool b, _] => .ok b
  | .list [.bool b, _] => .ok b
  | v => .error (.type (.condition "ternary" v.typeName))

/-- Whether a branch of an `IF` chain is taken. -/
def holds (condition : Value) : Except EvalError Bool :=
  match condition with
  | .bool b => .ok b
  | v => .error (.type (.condition "IF" v.typeName))

/-- The function of a name. -/
def function (src : Source) (name : String) : Except EvalError Callable :=
  match src.engine.functions.lookup name with
  | some f => .ok f
  | none => .error (.unknownFunction name)

/-- Registers a block: under its kind, where blocks of a kind are gathered, and under its label. -/
def registerBlock (kind label : String) (props : Table Value) : Eval Value := do
  let props :=
    if Table.contains props "name" then props else Table.insert props "name" (.str label)
  let block := Value.block kind label props
  -- Whatever else the kind's name means in this scope is replaced by a new bucket.
  let bucket := match (← scope).findOwn? kind with
    | some (.map entries) => if isBlockTable entries then [] else entries
    | _ => []
  modifyScope fun s => (s.set kind (.map (Table.insert bucket label block))).set label block
  return block

/-- Registers an arrow at the end of the list of its relation. -/
def registerArrow (relation source target : String) (props : Table Value) : Eval Value := do
  -- The ends of the arrow take the place of properties with their names.
  let props := Table.insert (Table.insert props "source" (.str source)) "target" (.str target)
  let record := Value.map [("props", .map props), ("type", .str relation)]
  let edges := match (← scope).findOwn? relation with
    | some (.list items) => items
    | _ => []
  modifyScope fun s => s.set relation (.list (edges ++ [record]))
  return record

/-- The result of a step of a pipeline. -/
def stepResult (name : String) : Value → Except EvalError Value
  | .tuple [v, e] =>
    if e.isNullish then .ok v else .error (.pipeline (.failed name e.print))
  | v => .ok v

/-- Runs the steps of a pipeline in order; `output` is the result so far. -/
def runSteps (steps : List (String × Eval Value)) (output : Value) : List String → Eval Value
  | [] => return output
  | name :: names => do
    match steps.lookup name with
    | some act =>
      let v ← ofExcept (stepResult name (← act))
      modifyScope fun s => s.set name v
      runSteps steps v names
    | none => runSteps steps output names

/-- The arrows of a pipeline. -/
def arrowsOf (body : List Node) : List (String × String) :=
  body.filterMap fun n => match n with
    | .arrow _ source target _ _ => some (source, target)
    | _ => none

/-- Runs a pipeline in a scope of its own. -/
def runPipeline (steps : List (String × Eval Value)) (arrows : List (String × String)) :
    Eval Value := do
  match Pipeline.order (steps.map Prod.fst) arrows with
  | .error fault => fail (.pipeline fault)
  | .ok names => fun s =>
    -- The scope around the pipeline comes back, also after a failure.
    match runSteps steps .null names { s with scope := s.scope.child } with
    | (r, s') => (r, { s' with scope := s.scope })

/-- The program of a command. -/
def programOf (v : Value) : Except EvalError String :=
  match v with
  | .str s => if Text.trim s = "" then .error (.exec (.command "string")) else .ok s
  | v => .error (.exec (.command v.typeName))

/-- The arguments of a command. -/
def argsOf : Value → List String
  | .list items => items.map Value.print
  | .null | .undefined => []
  | v => [v.print]

/-- The directory of a command; a relative one is beside the document. -/
def directoryOf (src : Source) : Value → Except EvalError (Option String)
  | .str s => .ok (some (Path.join src.base s))
  | .null | .undefined => .ok none
  | v => .error (.exec (.directory v.typeName))

/-- Runs a command. -/
def runCommand (src : Source) (c : Command) : Eval Value := do
  note (.command c)
  match src.engine.runner (← world).host c with
  | .ok output => return .str output
  | .error reason => fail (.exec (.failed reason))

end Eval

open Eval

mutual

/-- The value of a node. A call gives its tuple. -/
def Node.evalWith (src : Source) (hooks : Hooks) : Node → Eval Value
  | .assign target value _ => do
    let outcome ← attempt (value.evalWith src hooks)
    return .map (← bindOutcome target.name value outcome)
  | .assignEach pairs => return .map (← evalPairs src hooks pairs)
  | .destructure targets source => do
    let outcome ← attempt (source.evalWith src hooks)
    return .map (← bindElements source outcome 0 targets)
  | .block kind label body _ => do
    let props ← inChild (evalStatements src hooks body)
    registerBlock kind (Node.effectiveLabel kind label) props
  | .container kind body _ => do
    let vars ← inChild (evalStatements src hooks body)
    modifyScope fun s => s.set kind (.map vars)
    return .map vars
  | .arrow relation source target body _ => do
    let props ← inChild (evalStatements src hooks body)
    registerArrow (Node.relationName relation) source target props
  | .map entries => return .map (← inChild (evalStatements src hooks entries))
  | .combinedMap items => do
    return .map (← inChild do
      -- Blocks come last, so that they see all other entries.
      evalSelected src hooks (fun n => !n.isBlock) items
      evalSelected src hooks Node.isBlock items)
  | .list items => return .list (← evalValues src hooks items)
  | .literal value => literalValue src hooks value
  | .ident name => do
    if name = "env" then return .env else return (← scope).lookup name
  | .member left name => do
    let target ← ofExcept ((← left.evalWith src hooks).unwrapCall left)
    -- Names of the scope that the left side has left can hide the entries of a table.
    let host := (← world).host
    ofExcept (target.member name (← scope) fun n => src.engine.settings.envValue? host n)
  | .binary op left right => do
    let l ← ofExcept ((← left.evalWith src hooks).unwrapCall left)
    -- A left operand that is there makes the right one unnecessary.
    if op = .coalesce ∧ !l.isNullish then
      return l
    else
      let r ← ofExcept ((← right.evalWith src hooks).unwrapCall right)
      ofExcept (Value.binary op l r)
  | .unary op operand => do
    let v ← ofExcept ((← operand.evalWith src hooks).unwrapCall operand)
    ofExcept (Value.unary op v)
  | .ternary condition yes no => do
    if ← ofExcept (choose (← condition.evalWith src hooks)) then
      ofExcept ((← yes.evalWith src hooks).unwrapCall yes)
    else
      ofExcept ((← no.evalWith src hooks).unwrapCall no)
  | .group inner => inner.evalWith src hooks
  | .call name args _ => do
    let values ← evalValues src hooks args
    let f ← ofExcept (function src name)
    Eval.call f values
  | .envRef name default => return .str ((← envValue? src name).getD (default.getD ""))
  | .inclusion target _ => do
    match ← ofExcept ((← target.evalWith src hooks).unwrapCall target) with
    | .str s => hooks.inclusion s
    | v => fail (.inclusion v.print (.notString v.typeName))
  | .comment _ => return .undefined
  | .control branches => evalBranches src hooks branches
  | .pipeline body _ => runPipeline (stepsOf src hooks body) (arrowsOf body)
  | .exec cmd args dir _ => do
    -- Where commands are not allowed not even their arguments are evaluated.
    if src.engine.settings.allowExec then
      let program ← ofExcept (programOf (← ofExcept ((← cmd.evalWith src hooks).unwrapCall cmd)))
      let args := argsOf (← evalOption src hooks args)
      let directory ← ofExcept (directoryOf src (← evalOption src hooks dir))
      runCommand src ⟨program, args, directory⟩
    else
      fail .execDisabled
  | .extract source index => do
    ofExcept ((← source.evalWith src hooks).element index)

/-- Runs statements in order, each error located in its statement. -/
def evalStatements (src : Source) (hooks : Hooks) : List Node → Eval Unit
  | [] => return ()
  | n :: ns => do
    let _ ← locating src.file n.pos? (n.evalWith src hooks)
    evalStatements src hooks ns

/-- Runs those of a list of statements that are selected, errors unlocated. -/
def evalSelected (src : Source) (hooks : Hooks) (selected : Node → Bool) : List Node → Eval Unit
  | [] => return ()
  | n :: ns => do
    if selected n then
      let _ ← n.evalWith src hooks
    evalSelected src hooks selected ns

/-- The values of expressions, calls taken apart. -/
def evalValues (src : Source) (hooks : Hooks) : List Node → Eval (List Value)
  | [] => return []
  | n :: ns => do
    let v ← ofExcept ((← n.evalWith src hooks).unwrapCall n)
    return v :: (← evalValues src hooks ns)

/-- The value of an expression that may be missing; null if it is. -/
def evalOption (src : Source) (hooks : Hooks) : Option Node → Eval Value
  | none => return .null
  | some n => do ofExcept ((← n.evalWith src hooks).unwrapCall n)

/-- Assigns a value to each target, as so many single assignments would. -/
def evalPairs (src : Source) (hooks : Hooks) : List (Target × Node) → Eval (Table Value)
  | [] => return []
  | (target, n) :: pairs => do
    let outcome ← attempt (n.evalWith src hooks)
    let vars ← bindOutcome target.name n outcome
    return Table.union vars (← evalPairs src hooks pairs)

/-- Runs the first branch whose condition holds. -/
def evalBranches (src : Source) (hooks : Hooks) : List (Branch Node) → Eval Value
  | [] => return .undefined
  | ⟨condition, body, _⟩ :: branches => do
    let taken ← match condition with
      | none => pure true
      | some n => do
        ofExcept (holds (← ofExcept ((← n.evalWith src hooks).unwrapCall n)))
    if taken then
      -- A branch writes to the scope around it.
      evalStatements src hooks body
      return .undefined
    else
      evalBranches src hooks branches

/-- The steps of a pipeline by name, each with its evaluation. -/
def stepsOf (src : Source) (hooks : Hooks) : List Node → List (String × Eval Value)
  | [] => []
  | .assign target value _ :: ns => (target.name, value.evalWith src hooks) :: stepsOf src hooks ns
  | _ :: ns => stepsOf src hooks ns

end

end BlockConfig
