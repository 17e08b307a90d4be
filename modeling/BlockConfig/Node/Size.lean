import BlockConfig.Node

/-!
How long the strings of a tree are.

An expression inside a string is shorter than the string, and so are the strings inside it. The
length of the longest string of a tree therefore bounds how often an expression can be found in a
string that was itself found in a string.
-/

set_option autoImplicit false

namespace BlockConfig

mutual

/-- The length of the longest string that is written out in a node. -/
def Node.longestText : Node → Nat
  | .literal (.str value _ _) => value.length
  | .literal _ | .ident _ | .envRef _ _ | .comment _ => 0
  | .assign _ value _ => value.longestText
  | .assignEach pairs => longestTextPairs pairs
  | .destructure _ source | .extract source _ => source.longestText
  | .block _ _ body _ | .container _ body _ | .arrow _ _ _ body _ => longestTextAll body
  | .map items | .combinedMap items | .list items => longestTextAll items
  | .call _ args _ => longestTextAll args
  | .pipeline body _ => longestTextAll body
  | .member left _ => left.longestText
  | .binary _ left right => max left.longestText right.longestText
  | .unary _ operand => operand.longestText
  | .ternary condition yes no =>
    max condition.longestText (max yes.longestText no.longestText)
  | .group inner => inner.longestText
  | .inclusion target _ => target.longestText
  | .control branches => longestTextBranches branches
  | .exec cmd args dir _ =>
    max cmd.longestText (max (longestTextOption args) (longestTextOption dir))

/-- The length of the longest string in a list of nodes. -/
def longestTextAll : List Node → Nat
  | [] => 0
  | n :: ns => max n.longestText (longestTextAll ns)

/-- The length of the longest string in the values of targets. -/
def longestTextPairs : List (Target × Node) → Nat
  | [] => 0
  | (_, n) :: pairs => max n.longestText (longestTextPairs pairs)

/-- The length of the longest string in a node that may be missing. -/
def longestTextOption : Option Node → Nat
  | none => 0
  | some n => n.longestText

/-- The length of the longest string in the links of an `IF` chain. -/
def longestTextBranches : List (Branch Node) → Nat
  | [] => 0
  | ⟨condition, body, _⟩ :: branches =>
    max (longestTextOption condition) (max (longestTextAll body) (longestTextBranches branches))

end

end BlockConfig
