import BlockConfig.Operator

/-!
The syntax tree of documents.

A document is a list of nodes. Statements and expressions are one type, because they nest in each
other without limit: a map literal is a list of statements, and a directive may stand where a value
is expected. Statements keep the position they begin at.

Three things are held by the types. A bare name used as a statement, a *flag*, is a form of
assignment that cannot also be written with a colon. One right-hand side shared by several targets
is kept once, in `destructure`. And an arrow's relation is one of seven.
-/

set_option autoImplicit false

namespace BlockConfig

/-- The relations that an arrow may name. -/
inductive Relation where
  | edge | arrow | connection | link | relation | flow | dependency
deriving DecidableEq, Repr, Inhabited

namespace Relation

/-- How a relation is written. -/
def name : Relation → String
  | edge => "Edge"
  | arrow => "Arrow"
  | connection => "Connection"
  | link => "Link"
  | relation => "Relation"
  | flow => "Flow"
  | dependency => "Dependency"

/-- All relations. -/
def all : List Relation :=
  [edge, arrow, connection, link, relation, flow, dependency]

/-- The relation with a given name. -/
def ofName? (s : String) : Option Relation :=
  all.find? fun r => r.name = s

end Relation

/-- A name that is assigned to, and where it stands. -/
structure Target where
  name : String
  pos : Position
deriving DecidableEq, Repr, Inhabited

/-- How an assignment is written: `name = value`, `name: value`, or as a bare name. -/
inductive AssignStyle where
  | equals | colon | flag
deriving DecidableEq, Repr, Inhabited

/-- Values that are written out. A string keeps its quotation mark, and a heredoc its tag. -/
inductive Literal where
  | str (value : String) (quote : Char) (heredoc : Option String)
  | int (value : Int64)
  | float (value : Float)
  | bool (value : Bool)
  | null
deriving DecidableEq, Inhabited

/-- One link of an `IF` chain: its condition, none for a final `ELSE`, and its statements. -/
structure Branch (α : Type) where
  condition : Option α
  body : List α
  pos : Position

/-- The nodes of a document. -/
inductive Node where
  /-- An assignment to one name. -/
  | assign (target : Target) (value : Node) (style : AssignStyle)
  /-- Several targets with a value for each: `a, b = x, y`. -/
  | assignEach (pairs : List (Target × Node))
  /-- Several targets that take the elements of one value, in order: `a, b = f()`. -/
  | destructure (targets : List Target) (source : Node)
  /-- A block `kind label { … }`; the label is optional. -/
  | block (kind : String) (label : Option String) (body : List Node) (pos : Position)
  /-- A container `kind { … }` with nothing but blocks inside. -/
  | container (kind : String) (body : List Node) (pos : Position)
  /-- An arrow `relation source -> target { … }`; the relation and the body are optional. -/
  | arrow (relation : Option Relation) (source target : String) (body : List Node) (pos : Position)
  /-- A map `{ … }` without blocks inside. -/
  | map (entries : List Node)
  /-- A map `{ … }` with blocks inside. -/
  | combinedMap (items : List Node)
  /-- A list `[ … ]`. -/
  | list (items : List Node)
  /-- A value written out. -/
  | literal (value : Literal)
  /-- A name. -/
  | ident (name : String)
  /-- A member of a value, `left.name`. -/
  | member (left : Node) (name : String)
  /-- Two operands with an operator between them. -/
  | binary (op : BinaryOp) (left right : Node)
  /-- An operator in front of its operand. -/
  | unary (op : UnaryOp) (operand : Node)
  /-- A choice `condition ? yes : no`. -/
  | ternary (condition yes no : Node)
  /-- An expression in parentheses. -/
  | group (inner : Node)
  /-- A call `name(…)`. -/
  | call (name : String) (args : List Node) (pos : Position)
  /-- An environment reference `${name:default}` outside of a string. -/
  | envRef (name : String) (default : Option String)
  /-- The directive `@include target`. -/
  | inclusion (target : Node) (pos : Position)
  /-- A comment that stands as a statement. -/
  | comment (text : String)
  /-- A chain `IF … ELSEIF … ELSE …`. -/
  | control (branches : List (Branch Node))
  /-- The directive `@pipeline { … }`. -/
  | pipeline (body : List Node) (pos : Position)
  /-- The directive `@exec(cmd=…, args=…, dir=…)`. -/
  | exec (cmd : Node) (args dir : Option Node) (pos : Position)
  /-- Element `index` of a value. -/
  | extract (source : Node) (index : Nat)
deriving Inhabited

namespace Node

/-- The position of a statement. Comments and most expressions have none. -/
def pos? : Node → Option Position
  | assign target _ _ => some target.pos
  | assignEach pairs => pairs.head?.map fun pair => pair.1.pos
  | destructure targets _ => targets.head?.map Target.pos
  | block _ _ _ pos | container _ _ pos | arrow _ _ _ _ pos => some pos
  | call _ _ pos | inclusion _ pos | pipeline _ pos | exec _ _ _ pos => some pos
  | control branches => branches.head?.map Branch.pos
  | _ => none

/-- Whether a node is a block or a container of blocks. -/
def isBlock : Node → Bool
  | block .. | container .. => true
  | _ => false

/-- Whether a node is a comment. -/
def isComment : Node → Bool
  | comment _ => true
  | _ => false

/-- Whether a node is a value written out. -/
def isLiteral : Node → Bool
  | literal _ => true
  | _ => false

/-- The name under which a block is registered: its label, or its kind if it has none. -/
def effectiveLabel (kind : String) (label : Option String) : String :=
  label.getD kind

/-- The name of an arrow's relation; an arrow that names none is an edge. -/
def relationName (relation : Option Relation) : String :=
  (relation.getD .edge).name

/-- A destructuring, read as one assignment for each target: target `i` gets element `i`. -/
def elementsOf (targets : List Target) (source : Node) : List (Target × Node) :=
  targets.zipIdx.map fun (target, index) => (target, extract source index)

/-- The block or container that `kind label { … }` stands for: without a label, a body of nothing
but blocks and comments, at least one of them a block, makes a container. -/
def ofBlock (kind : String) (label : Option String) (body : List Node) (pos : Position) : Node :=
  let onlyBlocks := body.all fun n => n.isBlock || n.isComment
  if label.isNone && onlyBlocks && body.any isBlock then container kind body pos
  else block kind label body pos

/-- The map that `{ … }` stands for. -/
def ofEntries (entries : List Node) : Node :=
  if entries.any isBlock then combinedMap entries else map entries

end Node

end BlockConfig
