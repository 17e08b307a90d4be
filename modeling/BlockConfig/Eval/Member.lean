import BlockConfig.EvalError
import BlockConfig.Scope

/-!
Members of values.

A member of a table is its entry of that name; if the scope has a variable of the same name in its
own table, that variable wins. Behind a table's own entries come the properties of the block that it
is, or of the only block that it holds. In a list with blocks a member is the properties of the first
block with that label. Asked of `env`, a member is a variable of the environment, with an optional
default behind a colon.
-/

set_option autoImplicit false

namespace BlockConfig.Value

/-- A property of a block; `undefined` if it has none of that name. -/
def property (block : Table Value) (name : String) : Value :=
  match Table.find? block propsKey with
  | some (map props) => (Table.find? props name).getD undefined
  | _ => undefined

/-- Whether a value is a block with a label. -/
def hasLabel (label : String) : Value → Bool
  | map entries =>
    isBlockTable entries &&
      (match Table.find? entries labelKey with
      | some (str s) => s == label
      | _ => false)
  | _ => false

/-- What a block holds under `props`. -/
def propsEntry : Value → Value
  | map entries => (Table.find? entries propsKey).getD undefined
  | _ => undefined

/-- The member of a table. -/
def tableMember (entries : Table Value) (name : String) (scope : Scope) : Value :=
  match Table.find? entries name with
  -- Only an entry of the table itself can be hidden, a property cannot.
  | some direct => (scope.findOwn? name).getD direct
  | none =>
    if isBlockTable entries then property entries name
    else
      -- A table that holds nothing but one block stands for the block.
      match entries with
      | [(_, map inner)] => if isBlockTable inner then property inner name else undefined
      | _ => undefined

/-- The member of a list that holds blocks. -/
def listMember (items : List Value) (name : String) (scope : Scope) : Value :=
  match items.find? (hasLabel name) with
  | some block => (scope.findOwn? name).getD (propsEntry block)
  | none => undefined

/-- The member of the environment. -/
def environmentMember (name : String) (envValue? : String → Option String) : Value :=
  let (name, default) := (Text.splitStringOnce ':' name).getD (name, "")
  str ((envValue? name).getD default)

/-- The member of a value. -/
def member (target : Value) (name : String) (scope : Scope) (envValue? : String → Option String) :
    Except EvalError Value :=
  match target with
  | env => .ok (environmentMember name envValue?)
  | map entries => .ok (tableMember entries name scope)
  | list items =>
    if items.any isBlock then .ok (listMember items name scope)
    else .error (.dotAccess target.typeName)
  | undefined => .ok undefined
  | target => .error (.dotAccess target.typeName)

/-- Of a scope only its own table can hide entries. -/
theorem member_congr (target : Value) (name : String) {a b : Scope} (h : a.own = b.own)
    (envValue? : String → Option String) :
    target.member name a envValue? = target.member name b envValue? := by
  have own : a.findOwn? name = b.findOwn? name := by rw [Scope.findOwn?, Scope.findOwn?, h]
  unfold member tableMember listMember
  rw [own]

end BlockConfig.Value
