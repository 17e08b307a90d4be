import BlockConfig.Node.Parser
import BlockConfig.Proofs.Grammar.Tree

/-!
Trees without their comments.

A comment that stands as a statement is a node of its own, in the body it stands in. `uncommented`
leaves out those nodes wherever statements stand, and changes nothing else. Whether a body makes a
block or a container, and a map with or without blocks, is told by the statements that are no
comments, so what the rules of the grammar build from statements is built from them without their
comments as well.
-/

set_option autoImplicit false

namespace BlockConfig.Node

mutual

/-- A tree without the comments among its statements. -/
def uncommented : Node → Node
  | assign target value style => assign target value.uncommented style
  | assignEach pairs => assignEach (uncommentedPairs pairs)
  | destructure targets source => destructure targets source.uncommented
  | block kind label body pos => block kind label (uncommentedAll body) pos
  | container kind body pos => container kind (uncommentedAll body) pos
  | arrow relation source target body pos =>
    arrow relation source target (uncommentedAll body) pos
  | map entries => map (uncommentedAll entries)
  | combinedMap items => combinedMap (uncommentedAll items)
  | list items => list (uncommentedEach items)
  | literal value => literal value
  | ident name => ident name
  | member left name => member left.uncommented name
  | binary op left right => binary op left.uncommented right.uncommented
  | unary op operand => unary op operand.uncommented
  | ternary condition yes no =>
    ternary condition.uncommented yes.uncommented no.uncommented
  | group inner => group inner.uncommented
  | call name args pos => call name (uncommentedEach args) pos
  | envRef name default => envRef name default
  | inclusion target pos => inclusion target.uncommented pos
  | comment text => comment text
  | control branches => control (uncommentedBranches branches)
  | pipeline body pos => pipeline (uncommentedAll body) pos
  | exec cmd args dir pos =>
    exec cmd.uncommented (uncommentedOption args) (uncommentedOption dir) pos
  | extract source index => extract source.uncommented index

/-- Statements without the comments among them and in them. -/
def uncommentedAll : List Node → List Node
  | [] => []
  | n :: ns => if n.isComment then uncommentedAll ns else n.uncommented :: uncommentedAll ns

/-- Expressions without the comments in them. -/
def uncommentedEach : List Node → List Node
  | [] => []
  | n :: ns => n.uncommented :: uncommentedEach ns

/-- Targets and their values without the comments in them. -/
def uncommentedPairs : List (Target × Node) → List (Target × Node)
  | [] => []
  | (target, value) :: pairs => (target, value.uncommented) :: uncommentedPairs pairs

/-- An expression that may be missing without the comments in it. -/
def uncommentedOption : Option Node → Option Node
  | none => none
  | some n => some n.uncommented

/-- The links of a chain without the comments in them. -/
def uncommentedBranches : List (Branch Node) → List (Branch Node)
  | [] => []
  | ⟨condition, body, pos⟩ :: branches =>
    ⟨uncommentedOption condition, uncommentedAll body, pos⟩ :: uncommentedBranches branches

end

@[simp] theorem isBlock_uncommented (n : Node) : n.uncommented.isBlock = n.isBlock := by
  cases n <;> simp [uncommented, isBlock]

@[simp] theorem isComment_uncommented (n : Node) : n.uncommented.isComment = n.isComment := by
  cases n <;> simp [uncommented, isComment]

/-- A comment is no block. -/
theorem isBlock_of_isComment {n : Node} (h : n.isComment = true) : n.isBlock = false := by
  cases n <;> first | rfl | cases h

theorem any_isBlock_uncommentedAll (ns : List Node) :
    (uncommentedAll ns).any isBlock = ns.any isBlock := by
  induction ns with
  | nil => rfl
  | cons n ns ih =>
    rw [uncommentedAll]
    split
    next h => rw [ih, List.any_cons, isBlock_of_isComment h, Bool.false_or]
    next => rw [List.any_cons, List.any_cons, ih, isBlock_uncommented]

/-- Whether only blocks and comments are left does not depend on comments. -/
theorem all_isBlock_uncommentedAll (ns : List Node) :
    ((uncommentedAll ns).all fun n => n.isBlock || n.isComment) =
      ns.all fun n => n.isBlock || n.isComment := by
  induction ns with
  | nil => rfl
  | cons n ns ih =>
    rw [uncommentedAll]
    split
    next h => rw [ih, List.all_cons, h, Bool.or_true, Bool.true_and]
    next => rw [List.all_cons, List.all_cons, ih, isBlock_uncommented, isComment_uncommented]

theorem uncommented_ofBlock (kind : String) (label : Option String) (body : List Node)
    (pos : Position) :
    (ofBlock kind label body pos).uncommented = ofBlock kind label (uncommentedAll body) pos := by
  simp only [ofBlock, any_isBlock_uncommentedAll, all_isBlock_uncommentedAll]
  split <;> simp [uncommented]

theorem uncommented_ofEntries (entries : List Node) :
    (ofEntries entries).uncommented = ofEntries (uncommentedAll entries) := by
  simp only [ofEntries, any_isBlock_uncommentedAll]
  split <;> simp [uncommented]

theorem uncommented_ungroup (n : Node) :
    (Rule.ungroup n).uncommented = Rule.ungroup n.uncommented := by
  cases n <;> simp [Rule.ungroup, uncommented]

theorem uncommentedPairs_zip (targets : List Target) (values : List Node) :
    uncommentedPairs (targets.zip values) = targets.zip (uncommentedEach values) := by
  induction targets generalizing values with
  | nil => rfl
  | cons t ts ih =>
    cases values with
    | nil => rfl
    | cons v vs => simp [uncommentedPairs, uncommentedEach, ih]

end BlockConfig.Node
