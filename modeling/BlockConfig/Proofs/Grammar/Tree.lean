import BlockConfig.Node

/-!
Trees, seen from outside.

The grammar is about the shape of trees and not about what the nodes mean, so this file reads a tree
through four functions that forget the meaning: the nodes below a node (`children`), how strongly a
node holds together when something stands in front of it (`rank`) or behind it (`grip`), and the
tree without its positions (`unplaced`).

`rank` and `grip` carry the whole of operator precedence. An operand is written without parentheses,
so it is read back as one only if nothing beside it binds more strongly. What stands in front of it
competes with the weakest operator of the operand's own top, which is its `rank`. What follows it
competes with every operand that ends where it ends: a choice or an included target behind the last
operator takes in all that follows, however strong that operator is. That is its `grip`, and it is
not more than the rank.
-/

set_option autoImplicit false

namespace BlockConfig

namespace BinaryOp

theorem strength_pos (op : BinaryOp) : 0 < op.strength := by
  cases op <;> decide

theorem strength_lt (op : BinaryOp) : op.strength < 4 := by
  cases op <;> decide

end BinaryOp

namespace Node

/-! ## 1. Below a node -/

/-- The nodes directly below a node, in the order in which they are written. -/
def children : Node → List Node
  | assign _ value _ => [value]
  | assignEach pairs => pairs.map Prod.snd
  | destructure _ source | extract source _ => [source]
  | block _ _ body _ | container _ body _ | arrow _ _ _ body _ | pipeline body _ => body
  | map items | combinedMap items | list items | call _ items _ => items
  | literal _ | ident _ | envRef _ _ | comment _ => []
  | member left _ => [left]
  | binary _ left right => [left, right]
  | unary _ operand => [operand]
  | ternary condition yes no => [condition, yes, no]
  | group inner => [inner]
  | inclusion target _ => [target]
  | control branches => branches.flatMap fun b => b.condition.toList ++ b.body
  | exec cmd args dir _ => cmd :: (args.toList ++ dir.toList)

/-- The nodes below a node are smaller than it, which is what inductions over trees rest on. -/
theorem sizeOf_lt_of_mem_children {m n : Node} (h : m ∈ n.children) : sizeOf m < sizeOf n := by
  cases n with
  | assignEach pairs =>
    obtain ⟨⟨target, value⟩, hp, rfl⟩ := List.mem_map.1 h
    have h1 := List.sizeOf_lt_of_mem hp
    simp only [Prod.mk.sizeOf_spec, assignEach.sizeOf_spec] at h1 ⊢
    omega
  | control branches =>
    obtain ⟨⟨condition, body, pos⟩, hb, hm⟩ := List.mem_flatMap.1 h
    have h1 := List.sizeOf_lt_of_mem hb
    simp only [Branch.mk.sizeOf_spec, control.sizeOf_spec] at h1 ⊢
    rcases List.mem_append.1 hm with hm | hm
    · obtain rfl : condition = some m := Option.mem_toList.1 hm
      simp only [Option.some.sizeOf_spec] at h1
      omega
    · have h2 : sizeOf m < sizeOf body := List.sizeOf_lt_of_mem hm
      omega
  | exec cmd args dir pos =>
    simp only [children, List.mem_cons, List.mem_append, Option.mem_toList] at h
    simp only [exec.sizeOf_spec]
    rcases h with rfl | rfl | rfl
    · omega
    · simp only [Option.some.sizeOf_spec]
      omega
    · simp only [Option.some.sizeOf_spec]
      omega
  | block _ _ body | container _ body | arrow _ _ _ body | pipeline body | map body
  | combinedMap body | list body | call _ body =>
    have h1 : sizeOf m < sizeOf body := List.sizeOf_lt_of_mem h
    simp only [block.sizeOf_spec, container.sizeOf_spec, arrow.sizeOf_spec, pipeline.sizeOf_spec,
      map.sizeOf_spec, combinedMap.sizeOf_spec, list.sizeOf_spec, call.sizeOf_spec]
    omega
  | literal | ident | envRef | comment => simp [children] at h
  | assign | destructure | extract | member | binary | unary | ternary | group | inclusion =>
    simp only [children, List.mem_cons, List.not_mem_nil, or_false] at h
    rcases h with rfl | rfl | rfl | rfl <;> simp <;> omega

/-- **Induction over trees.** What holds of a node whenever it holds of the nodes below it holds of
every node. -/
theorem induction_children {P : Node → Prop} (step : ∀ n : Node, (∀ m ∈ n.children, P m) → P n)
    (n : Node) : P n :=
  step n fun m _ => induction_children step m
termination_by sizeOf n
decreasing_by exact sizeOf_lt_of_mem_children ‹_›

/-- A property that every node of a tree has. -/
inductive Everywhere (p : Node → Prop) : Node → Prop
  | intro {n : Node} (here : p n) (below : ∀ m ∈ n.children, Everywhere p m) : Everywhere p n

namespace Everywhere

variable {p q : Node → Prop} {n : Node}

theorem here (h : Everywhere p n) : p n := by
  cases h
  assumption

theorem child (h : Everywhere p n) : ∀ m ∈ n.children, Everywhere p m := by
  cases h
  assumption

theorem mono (hpq : ∀ n, p n → q n) (h : Everywhere p n) : Everywhere q n := by
  induction h with
  | intro hp _ ih => exact .intro (hpq _ hp) ih

theorem and (hp : Everywhere p n) (hq : Everywhere q n) : Everywhere (fun n => p n ∧ q n) n := by
  induction hp with
  | intro h _ ih => exact .intro ⟨h, hq.here⟩ fun m hm => ih m hm (hq.child m hm)

end Everywhere

/-! ## 2. How nodes hold together -/

/-- How strong an operator may be in front of a node for the node to be its operand. -/
def rank : Node → Nat
  | ternary .. => 0
  | binary op .. => op.strength
  | unary .. => 4
  | _ => 5

/-- How strong a token may be behind a node without being taken in by it: an operator counts with
its strength, a question mark like the weakest operator, and a dot more than all of them. -/
def grip : Node → Nat
  | ternary .. | inclusion .. => 0
  | binary op _ right => min op.strength right.grip
  | unary _ operand => min 4 operand.grip
  | _ => 5

theorem grip_le_rank (n : Node) : n.grip ≤ n.rank := by
  cases n with
  | binary op left right => exact Nat.min_le_left _ _
  | unary op operand => exact Nat.min_le_left _ _
  | _ => simp [grip, rank]

theorem rank_le (n : Node) : n.rank ≤ 5 := by
  cases n with
  | binary op =>
    have := op.strength_lt
    simp only [rank]
    omega
  | _ => simp [rank]

/-! ## 3. Without positions -/

mutual

/-- A tree with all positions set to the start of a text. -/
def unplaced : Node → Node
  | assign target value style => assign ⟨target.name, .start⟩ value.unplaced style
  | assignEach pairs => assignEach (unplacedPairs pairs)
  | destructure targets source =>
    destructure (targets.map fun t => ⟨t.name, .start⟩) source.unplaced
  | block kind label body _ => block kind label (unplacedAll body) .start
  | container kind body _ => container kind (unplacedAll body) .start
  | arrow relation source target body _ => arrow relation source target (unplacedAll body) .start
  | map entries => map (unplacedAll entries)
  | combinedMap items => combinedMap (unplacedAll items)
  | list items => list (unplacedAll items)
  | literal value => literal value
  | ident name => ident name
  | member left name => member left.unplaced name
  | binary op left right => binary op left.unplaced right.unplaced
  | unary op operand => unary op operand.unplaced
  | ternary condition yes no => ternary condition.unplaced yes.unplaced no.unplaced
  | group inner => group inner.unplaced
  | call name args _ => call name (unplacedAll args) .start
  | envRef name default => envRef name default
  | inclusion target _ => inclusion target.unplaced .start
  | comment text => comment text
  | control branches => control (unplacedBranches branches)
  | pipeline body _ => pipeline (unplacedAll body) .start
  | exec cmd args dir _ => exec cmd.unplaced (unplacedOption args) (unplacedOption dir) .start
  | extract source index => extract source.unplaced index

/-- Every tree of a list without positions. -/
def unplacedAll : List Node → List Node
  | [] => []
  | n :: ns => n.unplaced :: unplacedAll ns

/-- Targets and their values without positions. -/
def unplacedPairs : List (Target × Node) → List (Target × Node)
  | [] => []
  | (target, value) :: pairs => (⟨target.name, .start⟩, value.unplaced) :: unplacedPairs pairs

/-- A tree that may be missing without positions. -/
def unplacedOption : Option Node → Option Node
  | none => none
  | some n => some n.unplaced

/-- The links of a chain without positions. -/
def unplacedBranches : List (Branch Node) → List (Branch Node)
  | [] => []
  | ⟨condition, body, _⟩ :: branches =>
    ⟨unplacedOption condition, unplacedAll body, .start⟩ :: unplacedBranches branches

end

theorem unplacedAll_eq (ns : List Node) : unplacedAll ns = ns.map unplaced := by
  induction ns with
  | nil => rfl
  | cons n ns ih => rw [unplacedAll, ih, List.map_cons]

@[simp] theorem isBlock_unplaced (n : Node) : n.unplaced.isBlock = n.isBlock := by
  cases n <;> simp [unplaced, isBlock]

@[simp] theorem isComment_unplaced (n : Node) : n.unplaced.isComment = n.isComment := by
  cases n <;> simp [unplaced, isComment]

theorem any_isBlock_unplacedAll (ns : List Node) :
    (unplacedAll ns).any isBlock = ns.any isBlock := by
  simp [unplacedAll_eq, List.any_map, Function.comp_def]

theorem all_isBlock_unplacedAll (ns : List Node) :
    ((unplacedAll ns).all fun n => n.isBlock || n.isComment) =
      ns.all fun n => n.isBlock || n.isComment := by
  simp [unplacedAll_eq, List.all_map, Function.comp_def]

/-- Whether a body makes a block or a container does not depend on positions. -/
theorem unplaced_ofBlock (kind : String) (label : Option String) (body : List Node)
    (pos : Position) :
    (ofBlock kind label body pos).unplaced = ofBlock kind label (unplacedAll body) .start := by
  simp only [ofBlock, any_isBlock_unplacedAll, all_isBlock_unplacedAll]
  split <;> simp [unplaced]

/-- Nor does whether entries make a map with or without blocks. -/
theorem unplaced_ofEntries (entries : List Node) :
    (ofEntries entries).unplaced = ofEntries (unplacedAll entries) := by
  simp only [ofEntries, any_isBlock_unplacedAll]
  split <;> simp [unplaced]

end Node

end BlockConfig
