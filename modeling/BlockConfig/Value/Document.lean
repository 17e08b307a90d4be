import BlockConfig.Value

/-!
Documents as their readers see them.

Evaluation keeps the structure of blocks in reserved entries. A reader of the result wants plain
data: `toDocument` drops the reserved entries, puts the properties of a block in its place and keeps
of a tuple only its first element. `getPath?` walks along a dotted path through tables and the
properties of blocks without making that view first. `toPlain` is the view that is handed to a data
format: it keeps the reserved entries and only forgets the types that such formats do not have.
-/

set_option autoImplicit false

namespace BlockConfig.Value

/-! ## Paths -/

/-- The entry that a segment of a path names: one of the table, or else, in a block, one of its
properties. -/
def segment? (entries : Table Value) (name : String) : Option Value :=
  match Table.find? entries name with
  -- An entry comes before a property of the same name.
  | some v => some v
  | none =>
    if isBlockTable entries then
      match Table.find? entries propsKey with
      | some (map props) => Table.find? props name
      | _ => none
    else none

/-- The value that a list of segments leads to. -/
def getSegments? : Value → List String → Option Value
  | v, [] => some v
  | v, name :: names =>
    match v with
    | map entries => (segment? entries name).bind fun w => getSegments? w names
    | _ => none

/-- The value that a dotted path leads to. -/
def getPath? (v : Value) (path : String) : Option Value :=
  v.getSegments? ((Text.splitOnChar '.' path.toList).map String.ofList)

/-! ## The plain view -/

mutual

/-- The document without anything internal. -/
def toDocument : Value → Value
  | map entries =>
    if isBlockTable entries then map (propsDocument entries) else map (entriesDocument entries)
  | list items => list (itemsDocument items)
  | tuple items => headDocument items
  | undefined => null
  | env => null
  | null => null
  | bool b => bool b
  | int i => int i
  | float x => float x
  | str s => str s

/-- The entries of a table that are not reserved. -/
def entriesDocument : List (String × Value) → List (String × Value)
  | [] => []
  | (k, v) :: es =>
    if isReservedKey k then entriesDocument es else (k, v.toDocument) :: entriesDocument es

/-- The properties of a block; nothing if they are no table. -/
def propsDocument : List (String × Value) → List (String × Value)
  | [] => []
  | (k, v) :: es =>
    if k = propsKey then
      match v with
      | map props => entriesDocument props
      | _ => []
    else propsDocument es

/-- The documents of the values of a list. -/
def itemsDocument : List Value → List Value
  | [] => []
  | v :: vs => v.toDocument :: itemsDocument vs

/-- The document of the first value of a list. -/
def headDocument : List Value → Value
  | [] => null
  | v :: _ => v.toDocument

end

/-! ## The data view -/

/-- Plain data: what any data format can hold. -/
inductive Plain where
  | null
  | bool (value : Bool)
  | int (value : Int64)
  | float (value : Float)
  | str (value : String)
  | list (items : List Plain)
  | map (entries : List (String × Plain))
deriving Inhabited

mutual

/-- A value as plain data. A float that is not finite has no text in a data format and is null. -/
def toPlain : Value → Plain
  | undefined | null | env => .null
  | bool b => .bool b
  | int i => .int i
  | float x => if x.isFinite then .float x else .null
  | str s => .str s
  | list items => .list (itemsPlain items)
  | tuple items => .list (itemsPlain items)
  | map entries => .map (entriesPlain entries)

/-- The values of a list as plain data. -/
def itemsPlain : List Value → List Plain
  | [] => []
  | v :: vs => v.toPlain :: itemsPlain vs

/-- The entries of a table as plain data. -/
def entriesPlain : List (String × Value) → List (String × Plain)
  | [] => []
  | (k, v) :: es => (k, v.toPlain) :: entriesPlain es

end

end BlockConfig.Value
