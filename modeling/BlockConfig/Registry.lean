import BlockConfig.Table
import BlockConfig.Text.Blank
import BlockConfig.Text.Case
import BlockConfig.Value

/-!
The functions that documents may call.

A function is kept under its name in lower case, so that calls do not depend on case. Registering
needs a name that is neither blank nor taken; nothing is ever replaced silently. Blanks around the
name are dropped on registering but count on looking up.
-/

set_option autoImplicit false

namespace BlockConfig

/-- What registered functions can change: a flag that asks a pool to stop, and counters of their
own. -/
structure Memory where
  cancelled : Bool
  counters : List Nat
deriving DecidableEq, Repr, Inhabited

namespace Memory

/-- Nothing asked for and nothing counted. -/
def fresh : Memory :=
  ⟨false, []⟩

/-- One more on a counter: the new count, and the memory that knows it. -/
def count (m : Memory) (counter : Nat) : Nat × Memory :=
  let n := m.counters.getD counter 0 + 1
  let counters := m.counters ++ List.replicate (counter + 1 - m.counters.length) 0
  (n, { m with counters := counters.set counter n })

end Memory

/-- How a call ends: with a value, with an error message, or by breaking off altogether. -/
inductive Reply where
  | value (v : Value)
  | error (message : String)
  | abort (message : String)
deriving Inhabited

/-- A function of documents. -/
abbrev Callable : Type := List Value → Memory → Reply × Memory

/-- Why a function could not be registered. -/
inductive RegistryError where
  | emptyName
  | alreadyRegistered (name : String)
deriving DecidableEq, Repr

namespace RegistryError

/-- The message of an error. -/
def message : RegistryError → String
  | emptyName => "Function name must not be empty"
  | alreadyRegistered name => "Function '" ++ name ++ "' is already registered"

end RegistryError

/-- Functions by name in lower case. -/
abbrev Registry : Type := Table Callable

namespace Registry

/-- No functions. -/
def empty : Registry := []

/-- The function of a name. -/
def lookup (r : Registry) (name : String) : Option Callable :=
  Table.find? r (Text.lower name)

/-- Whether a name has a function. -/
def contains (r : Registry) (name : String) : Bool :=
  (r.lookup name).isSome

/-- The registry with one more function. -/
def register (r : Registry) (name : String) (f : Callable) : Except RegistryError Registry :=
  -- The message of an error shows the name as it was given.
  let key := Text.lower (Text.trim name)
  if key = "" then .error .emptyName
  else if Table.contains r key then .error (.alreadyRegistered name)
  else .ok (Table.insert r key f)

/-- The registry without the function of a name. -/
def unregister (r : Registry) (name : String) : Registry :=
  Table.erase r (Text.lower name)

/-- The names that have a function, in lower case and in order. -/
def names (r : Registry) : List String :=
  Table.keys r

end Registry

end BlockConfig
