import BlockConfig.Node.Parser
import BlockConfig.Proofs.Grammar.Tree
import BlockConfig.Proofs.Lexing.Cutting

/-!
The same text in another place.

A text that stands behind other text is cut into the same tokens, only further down and, on its
first line, further to the right. Such a `Displacement` moves positions, and with them tokens and
trees. A tree is moved by a function on positions (`Node.mapPos`), so that moving twice is moving
once and forgetting the positions (`unplaced`) is moving as well.
-/

set_option autoImplicit false

namespace BlockConfig

open Text

/-! ## 1. Displacements -/

/-- By how many lines a text is moved down and by how many columns its first line to the right. -/
structure Displacement where
  lines : Nat
  columns : Nat
deriving DecidableEq, Repr

namespace Displacement

/-- A text that stays where it is. -/
def none : Displacement :=
  ⟨0, 0⟩

/-- The displacement of a text that begins at a position. -/
def upTo (p : Position) : Displacement :=
  ⟨p.line - 1, p.column - 1⟩

end Displacement

/-- The position that a position is moved to. -/
def Position.moved (m : Displacement) (p : Position) : Position :=
  ⟨p.line + m.lines, if p.line = 1 then p.column + m.columns else p.column⟩

/-- The token with its position moved. -/
def Token.moved (m : Displacement) (t : Token) : Token :=
  { t with pos := t.pos.moved m }

namespace Position

@[simp] theorem line_moved (m : Displacement) (p : Position) :
    (p.moved m).line = p.line + m.lines := rfl

@[simp] theorem moved_none (p : Position) : p.moved .none = p := by
  simp [moved, Displacement.none]

/-- Positions count from one. -/
theorem start_moved_upTo {p : Position} (hl : 1 ≤ p.line) (hc : 1 ≤ p.column) :
    start.moved (.upTo p) = p := by
  show (⟨1 + (p.line - 1), 1 + (p.column - 1)⟩ : Position) = p
  rw [Nat.add_sub_cancel' hl, Nat.add_sub_cancel' hc]

/-- Reading a character in a moved text. A line end starts a new line, whose columns are not moved; every
other character goes on in the present one. -/
theorem next_moved (m : Displacement) {p : Position} (hl : 1 ≤ p.line) (c : Char) :
    (p.moved m).next c = (p.next c).moved m := by
  have hline : p.line + 1 ≠ 1 := by omega
  -- Behind a line feed a position is on no first line, so only its line is moved.
  by_cases hc : c = '\n'
  · simp only [next, if_pos hc, moved, if_neg hline, Nat.add_right_comm]
  · simp only [next, if_neg hc, moved]
    split
    · rw [Nat.add_right_comm]
    · rfl

/-- Lines are counted from one. -/
theorem line_pos_next {p : Position} (hl : 1 ≤ p.line) (c : Char) : 1 ≤ (p.next c).line := by
  unfold next
  split
  · exact Nat.le_add_left 1 p.line
  · exact hl

/-- The same of any number of characters, one after the other. -/
theorem advance_moved (m : Displacement) {p : Position} (hl : 1 ≤ p.line) (cs : List Char) :
    (p.moved m).advance cs = (p.advance cs).moved m := by
  induction cs generalizing p with
  | nil => rfl
  | cons c cs ih => rw [advance_cons, advance_cons, next_moved m hl, ih (line_pos_next hl c)]

end Position

namespace Token

@[simp] theorem kind_moved (m : Displacement) (t : Token) : (t.moved m).kind = t.kind := rfl

@[simp] theorem literal_moved (m : Displacement) (t : Token) :
    (t.moved m).literal = t.literal := rfl

@[simp] theorem pos_moved (m : Displacement) (t : Token) : (t.moved m).pos = t.pos.moved m := rfl

@[simp] theorem moved_none (t : Token) : t.moved .none = t := by
  simp [moved]

/-- **A text further on is cut into the same tokens,** moved. Where a token ends does not depend on where
the text stands, and neither does whether there is a fault. -/
theorem listFrom_moved (m : Displacement) {p : Position} (hl : 1 ≤ p.line) (cs : List Char) :
    listFrom (p.moved m) cs =
      ((listFrom p cs).map (List.map (moved m))).mapError fun e => ⟨e.fault, e.pos.moved m⟩ := by
  fun_induction listFrom p cs with
  | case1 p cs q hcs =>
    rw [listFrom_eq, Position.advance_moved m hl, hcs]
    rfl
  | case2 p cs q c body hcs fault hscan =>
    rw [listFrom_eq, Position.advance_moved m hl, hcs]
    dsimp only
    rw [hscan]
    rfl
  | case3 p cs q c body hcs l hscan ih =>
    have hq : 1 ≤ q.line := Nat.le_trans hl (Position.line_le_advance p _)
    rw [listFrom_eq, Position.advance_moved m hl, hcs]
    dsimp only
    rw [hscan]
    dsimp only
    rw [Position.advance_moved m hq, ih (Nat.le_trans hq (Position.line_le_advance q _))]
    cases listFrom (q.advance ((c :: body).take (body.length + 1 - l.rest.length))) l.rest <;> rfl

end Token

/-! ## 2. Trees -/

namespace Node

variable (f g : Position → Position)

mutual

/-- A tree with all positions changed. -/
def mapPos : Node → Node
  | assign target value style => assign ⟨target.name, f target.pos⟩ value.mapPos style
  | assignEach pairs => assignEach (mapPosPairs pairs)
  | destructure targets source =>
    destructure (targets.map fun t => ⟨t.name, f t.pos⟩) source.mapPos
  | block kind label body pos => block kind label (mapPosAll body) (f pos)
  | container kind body pos => container kind (mapPosAll body) (f pos)
  | arrow relation source target body pos =>
    arrow relation source target (mapPosAll body) (f pos)
  | map entries => map (mapPosAll entries)
  | combinedMap items => combinedMap (mapPosAll items)
  | list items => list (mapPosAll items)
  | literal value => literal value
  | ident name => ident name
  | member left name => member left.mapPos name
  | binary op left right => binary op left.mapPos right.mapPos
  | unary op operand => unary op operand.mapPos
  | ternary condition yes no => ternary condition.mapPos yes.mapPos no.mapPos
  | group inner => group inner.mapPos
  | call name args pos => call name (mapPosAll args) (f pos)
  | envRef name default => envRef name default
  | inclusion target pos => inclusion target.mapPos (f pos)
  | comment text => comment text
  | control branches => control (mapPosBranches branches)
  | pipeline body pos => pipeline (mapPosAll body) (f pos)
  | exec cmd args dir pos => exec cmd.mapPos (mapPosOption args) (mapPosOption dir) (f pos)
  | extract source index => extract source.mapPos index

/-- Every tree of a list with its positions changed. -/
def mapPosAll : List Node → List Node
  | [] => []
  | n :: ns => n.mapPos :: mapPosAll ns

/-- Targets and their values with their positions changed. -/
def mapPosPairs : List (Target × Node) → List (Target × Node)
  | [] => []
  | (target, value) :: pairs => (⟨target.name, f target.pos⟩, value.mapPos) :: mapPosPairs pairs

/-- A tree that may be missing with its positions changed. -/
def mapPosOption : Option Node → Option Node
  | none => none
  | some n => some n.mapPos

/-- The links of a chain with their positions changed. -/
def mapPosBranches : List (Branch Node) → List (Branch Node)
  | [] => []
  | ⟨condition, body, pos⟩ :: branches =>
    ⟨mapPosOption condition, mapPosAll body, f pos⟩ :: mapPosBranches branches

end

/-- Positions in a list of nodes are changed in each of them. -/
theorem mapPosAll_eq (ns : List Node) : mapPosAll f ns = ns.map (mapPos f) := by
  induction ns with
  | nil => rfl
  | cons n ns ih => rw [mapPosAll, ih, List.map_cons]

mutual

/-- Positions that are not changed stay. -/
theorem mapPos_id : (n : Node) → n.mapPos id = n
  | assign _ value _ => by simp [mapPos, mapPos_id value]
  | assignEach pairs => by simp [mapPos, mapPosPairs_id pairs]
  | destructure _ source => by simp [mapPos, mapPos_id source]
  | block _ _ body _ | container _ body _ | arrow _ _ _ body _ | map body | combinedMap body
  | list body | call _ body _ | pipeline body _ => by simp [mapPos, mapPosAll_id body]
  | literal _ | ident _ | envRef _ _ | comment _ => by simp [mapPos]
  | member left _ => by simp [mapPos, mapPos_id left]
  | binary _ left right => by simp [mapPos, mapPos_id left, mapPos_id right]
  | unary _ operand => by simp [mapPos, mapPos_id operand]
  | ternary condition yes no => by
    simp [mapPos, mapPos_id condition, mapPos_id yes, mapPos_id no]
  | group inner => by simp [mapPos, mapPos_id inner]
  | inclusion target _ => by simp [mapPos, mapPos_id target]
  | control branches => by simp [mapPos, mapPosBranches_id branches]
  | exec cmd args dir _ => by
    simp [mapPos, mapPos_id cmd, mapPosOption_id args, mapPosOption_id dir]
  | extract source _ => by simp [mapPos, mapPos_id source]

/-- Nothing changes where positions are left as they are. The lemmas on lists, pairs, options and chains are
proved along with the one on nodes, by recursion on all of them at once. -/
theorem mapPosAll_id : (ns : List Node) → mapPosAll id ns = ns
  | [] => rfl
  | n :: ns => by simp [mapPosAll, mapPos_id n, mapPosAll_id ns]

theorem mapPosPairs_id : (pairs : List (Target × Node)) → mapPosPairs id pairs = pairs
  | [] => rfl
  | (_, n) :: pairs => by simp [mapPosPairs, mapPos_id n, mapPosPairs_id pairs]

theorem mapPosOption_id : (o : Option Node) → mapPosOption id o = o
  | none => rfl
  | some n => by simp [mapPosOption, mapPos_id n]

theorem mapPosBranches_id : (bs : List (Branch Node)) → mapPosBranches id bs = bs
  | [] => rfl
  | ⟨condition, body, _⟩ :: bs => by
    simp [mapPosBranches, mapPosOption_id condition, mapPosAll_id body, mapPosBranches_id bs]

end

mutual

/-- Changed positions are forgotten like any others. -/
theorem unplaced_mapPos : (n : Node) → (n.mapPos f).unplaced = n.unplaced
  | assign _ value _ => by simp [mapPos, unplaced, unplaced_mapPos value]
  | assignEach pairs => by simp [mapPos, unplaced, unplacedPairs_mapPosPairs pairs]
  | destructure _ source => by simp [mapPos, unplaced, unplaced_mapPos source]
  | block _ _ body _ | container _ body _ | arrow _ _ _ body _ | map body | combinedMap body
  | list body | call _ body _ | pipeline body _ => by
    simp [mapPos, unplaced, unplacedAll_mapPosAll body]
  | literal _ | ident _ | envRef _ _ | comment _ => by simp [mapPos, unplaced]
  | member left _ => by simp [mapPos, unplaced, unplaced_mapPos left]
  | binary _ left right => by
    simp [mapPos, unplaced, unplaced_mapPos left, unplaced_mapPos right]
  | unary _ operand => by simp [mapPos, unplaced, unplaced_mapPos operand]
  | ternary condition yes no => by
    simp [mapPos, unplaced, unplaced_mapPos condition, unplaced_mapPos yes, unplaced_mapPos no]
  | group inner => by simp [mapPos, unplaced, unplaced_mapPos inner]
  | inclusion target _ => by simp [mapPos, unplaced, unplaced_mapPos target]
  | control branches => by simp [mapPos, unplaced, unplacedBranches_mapPosBranches branches]
  | exec cmd args dir _ => by
    simp [mapPos, unplaced, unplaced_mapPos cmd, unplacedOption_mapPosOption args,
      unplacedOption_mapPosOption dir]
  | extract source _ => by simp [mapPos, unplaced, unplaced_mapPos source]

/-- Without positions, changing them first makes no difference. -/
theorem unplacedAll_mapPosAll : (ns : List Node) →
    unplacedAll (mapPosAll f ns) = unplacedAll ns
  | [] => rfl
  | n :: ns => by simp [mapPosAll, unplacedAll, unplaced_mapPos n, unplacedAll_mapPosAll ns]

theorem unplacedPairs_mapPosPairs : (pairs : List (Target × Node)) →
    unplacedPairs (mapPosPairs f pairs) = unplacedPairs pairs
  | [] => rfl
  | (_, n) :: pairs => by
    simp [mapPosPairs, unplacedPairs, unplaced_mapPos n, unplacedPairs_mapPosPairs pairs]

theorem unplacedOption_mapPosOption : (o : Option Node) →
    unplacedOption (mapPosOption f o) = unplacedOption o
  | none => rfl
  | some n => by simp [mapPosOption, unplacedOption, unplaced_mapPos n]

theorem unplacedBranches_mapPosBranches : (bs : List (Branch Node)) →
    unplacedBranches (mapPosBranches f bs) = unplacedBranches bs
  | [] => rfl
  | ⟨condition, body, _⟩ :: bs => by
    simp [mapPosBranches, unplacedBranches, unplacedOption_mapPosOption condition,
      unplacedAll_mapPosAll body, unplacedBranches_mapPosBranches bs]

end

variable {f g}

/-! What the rules of the grammar build does not look at positions. -/

theorem any_isBlock_mapPosAll (ns : List Node) :
    (mapPosAll f ns).any isBlock = ns.any isBlock := by
  rw [← any_isBlock_unplacedAll, unplacedAll_mapPosAll, any_isBlock_unplacedAll]

theorem all_isBlock_mapPosAll (ns : List Node) :
    ((mapPosAll f ns).all fun n => n.isBlock || n.isComment) =
      ns.all fun n => n.isBlock || n.isComment := by
  rw [← all_isBlock_unplacedAll, unplacedAll_mapPosAll, all_isBlock_unplacedAll]

/-- Which block a kind and a label make does not depend on positions. -/
theorem mapPos_ofBlock (kind : String) (label : Option String) (body : List Node)
    (pos : Position) :
    (ofBlock kind label body pos).mapPos f = ofBlock kind label (mapPosAll f body) (f pos) := by
  simp only [ofBlock, any_isBlock_mapPosAll, all_isBlock_mapPosAll]
  split <;> simp [mapPos]

/-- Neither does whether entries make a map or a combined one. -/
theorem mapPos_ofEntries (entries : List Node) :
    (ofEntries entries).mapPos f = ofEntries (mapPosAll f entries) := by
  simp only [ofEntries, any_isBlock_mapPosAll]
  split <;> simp [mapPos]

/-- Parentheses can be taken off before or after. -/
theorem mapPos_ungroup (n : Node) : (Rule.ungroup n).mapPos f = Rule.ungroup (n.mapPos f) := by
  cases n <;> rfl

/-- Targets and values are changed separately. -/
theorem mapPosPairs_zip (targets : List Target) (values : List Node) :
    mapPosPairs f (targets.zip values) =
      (targets.map fun t => ⟨t.name, f t.pos⟩).zip (mapPosAll f values) := by
  induction targets generalizing values with
  | nil => rfl
  | cons t ts ih =>
    cases values with
    | nil => rfl
    | cons v vs => simp [mapPosPairs, mapPosAll, ih]

end Node

end BlockConfig
