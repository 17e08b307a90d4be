import BlockConfig.Value

/-!
Scopes.

A scope has a table of its own and sees the tables of the scopes around it. A name means the
innermost value it has. Writing always goes to the scope's own table, so that nothing done in an
inner scope changes an outer one.
-/

set_option autoImplicit false

namespace BlockConfig

/-- A scope: its own table, and the tables around it from the inside out. -/
structure Scope where
  own : Table Value
  outer : List (Table Value)

namespace Scope

/-- A scope with a table and nothing around it. -/
def root (vars : Table Value) : Scope :=
  ⟨vars, []⟩

/-- An empty scope inside another. -/
def child (s : Scope) : Scope :=
  ⟨[], s.own :: s.outer⟩

/-- The scope around a scope. -/
def parent? (s : Scope) : Option Scope :=
  match s.outer with
  | [] => none
  | own :: outer => some ⟨own, outer⟩

/-- The innermost value of a name. -/
def find? (s : Scope) (name : String) : Option Value :=
  (s.own :: s.outer).findSome? fun vars => Table.find? vars name

/-- The innermost value of a name; `undefined` if it has none. -/
def lookup (s : Scope) (name : String) : Value :=
  (s.find? name).getD .undefined

/-- The value of a name in the scope's own table. -/
def findOwn? (s : Scope) (name : String) : Option Value :=
  Table.find? s.own name

/-- The scope with a value for a name. -/
def set (s : Scope) (name : String) (v : Value) : Scope :=
  { s with own := Table.insert s.own name v }

theorem findOwn?_set (s : Scope) (name name' : String) (v : Value) :
    (s.set name v).findOwn? name' = if name' = name then some v else s.findOwn? name' :=
  Table.find?_insert s.own name name' v

/-- The scope with all entries of a table. -/
def extend (s : Scope) (vars : Table Value) : Scope :=
  { s with own := Table.union s.own vars }

end Scope

end BlockConfig
