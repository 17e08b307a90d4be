import BlockConfig.Eval.Monad

/-!
Results of calls, and what they are bound to.

A call gives a tuple of two, its result and its error. Where a value is wanted the tuple is taken
apart: without an error it is its result, and with one it is a failure of the function. Where
several names are assigned they take the elements of the tuple as they are.
-/

set_option autoImplicit false

namespace BlockConfig

namespace Node

/-- The name by which a failed call is known. -/
def callName : Node → String
  | call name _ _ => name
  | _ => "call"

/-- Whether a node takes an element out of another. -/
def isExtract : Node → Bool
  | extract .. => true
  | _ => false

end Node

namespace Value

/-- The value of a call, or its error; any other value is itself. -/
def unwrapCall (source : Node) : Value → Except EvalError Value
  | tuple [v, e] =>
    if e.isNullish then .ok v else .error (.function source.callName e.print)
  | v => .ok v

/-- Element `index` of a tuple or a list; any other value is its own first element. -/
def element (index : Nat) : Value → Except EvalError Value
  | tuple items | list items =>
    match items[index]? with
    | some v => .ok v
    | none => .error (.tupleIndex index items.length)
  | v => if index = 0 then .ok v else .error (.tupleIndex index 1)

/-- What a name is bound to when a value is assigned to it: a block goes under its new name. -/
def bound (name : String) (v : Value) : Value :=
  if v.isBlock then map [(name, v)] else v

end Value

namespace Eval

/-- Assigns a value to a name; `source` is what the value came from. -/
def bind (name : String) (source : Node) (v : Value) : Eval (Table Value) := do
  let v ← ofExcept (v.unwrapCall source)
  let v := v.bound name
  modifyScope fun s => s.set name v
  return [(name, v)]

/-- Assigns what an extraction gave to a name; if it failed the name stays as it is. -/
def bindElement (name : String) (source : Node) :
    Except EvalError Value → Eval (Table Value)
  | .ok v => bind name source v
  | .error _ => return []

/-- Assigns to a name what became of the evaluation of its source. An element that could not be had
leaves the name as it is; any other value has to be had. -/
def bindOutcome (name : String) (source : Node) (outcome : Except EvalError Value) :
    Eval (Table Value) :=
  if source.isExtract then bindElement name source outcome
  else do bind name source (← ofExcept outcome)

/-- Assigns the elements of a value, from element `index` on, to names. -/
def bindElements (source : Node) (whole : Except EvalError Value) :
    Nat → List Target → Eval (Table Value)
  | _, [] => return []
  | index, target :: targets => do
    -- A value that could not be had has no elements, so that nothing is bound.
    let element := whole.bind (Value.element index)
    let vars ← bindElement target.name (.extract source index) element
    return Table.union vars (← bindElements source whole (index + 1) targets)

end Eval

end BlockConfig
