import BlockConfig.Proofs.Grammar.Gives
import BlockConfig.Proofs.Grammar.Tree

/-!
The shape of trees that were read.

`Node.FitsHere` says of one node what the grammar guarantees about it and the nodes directly below
it: what may stand as a value and what as a statement, how many targets an assignment has, where an
`IF` chain may have a link without a condition, and that operands hold together against the
operators beside them. `Node.FromHere` says that the texts of a node were taken from tokens. A tree
that a rule gives has both at every node (`Rule.sound`).

The rules are treated at once, by induction on their budget (`Sound`). What goes through the
induction besides the shape is what a rule knows about the token behind its result: `Cursor.pull`
measures how strongly that token would pull at an operand in front of it, and it never exceeds the
`grip` of the result. For operands joined by operators the loop of `climb` carries the same bound
from one operator to the next, which is why a left operand needs no other condition.
-/

set_option autoImplicit false

namespace BlockConfig

namespace Token

/-- The value that a token stands for as an operand. -/
def Means (t : Token) (v : Literal) : Prop :=
  (t.kind = .number ∧ Rule.numberLiteral? t.literal = some v) ∨
    (t.kind = .str ∧ v = .str t.literal (t.quote.getD '"') none) ∨
    (t.kind = .heredoc ∧ v = .str t.literal '"' t.delimiter) ∨
    (t.kind = .bool ∧ v = .bool (t.literal = "true")) ∨
    (t.kind = .ident ∧ t.literal = "null" ∧ v = .null)

end Token

namespace Node

/-! ## 1. What may stand where -/

/-- Whether a node can stand where a value is expected. -/
def isValue : Node → Bool
  | map _ | combinedMap _ | list _ | literal _ | ident _ | member .. | binary .. | unary ..
  | ternary .. | group _ | call .. | envRef .. | inclusion .. | pipeline .. | exec .. => true
  | _ => false

/-- Whether a node can stand as a statement. -/
def isStatement : Node → Bool
  | assign .. | assignEach _ | destructure .. | block .. | container .. | arrow .. | inclusion ..
  | comment _ | control _ | pipeline .. | exec .. => true
  | _ => false

/-- Whether a node can stand in a pipeline. -/
def isStep : Node → Bool
  | assign _ _ style => style ≠ .flag
  | arrow .. | comment _ => true
  | _ => false

/-- What can stand in a pipeline can stand anywhere among statements; the converse fails for flags and
blocks. -/
theorem isStatement_of_isStep {n : Node} (h : n.isStep = true) : n.isStatement = true := by
  cases n <;> simp_all [isStep, isStatement]

/-- Links of an `IF` chain: only the last may lack a condition. -/
def Links : List (Branch Node) → Prop
  | [] => True
  | b :: bs =>
    (b.condition = none → bs = []) ∧ (∀ m ∈ b.condition, m.isValue = true) ∧
      (∀ m ∈ b.body, m.isStatement = true) ∧ Links bs

/-- Each link of a chain has a value as its condition, if it has one, and statements as its body. -/
theorem Links.of_mem {bs : List (Branch Node)} (h : Links bs) {b : Branch Node} (hb : b ∈ bs) :
    (∀ m ∈ b.condition, m.isValue = true) ∧ ∀ m ∈ b.body, m.isStatement = true := by
  induction bs with
  | nil => simp at hb
  | cons a bs ih =>
    rcases List.mem_cons.1 hb with rfl | hb
    · exact ⟨h.2.1, h.2.2.1⟩
    · exact ih h.2.2.2 hb

/-- What the grammar guarantees about a node and the nodes directly below it. -/
def FitsHere : Node → Prop
  | assign _ value style =>
    value.isValue = true ∧ (style = .flag → value = .literal (.bool true))
  | assignEach pairs => 2 ≤ pairs.length ∧ ∀ p ∈ pairs, p.2.isValue = true
  | destructure targets source => 2 ≤ targets.length ∧ source.isValue = true
  | block kind label body pos =>
    (∀ m ∈ body, m.isStatement = true) ∧ ofBlock kind label body pos = block kind label body pos
  | container kind body pos =>
    (∀ m ∈ body, m.isStatement = true) ∧ ofBlock kind none body pos = container kind body pos
  | arrow _ _ _ body _ => ∀ m ∈ body, m.isStatement = true
  | map entries => (∀ m ∈ entries, m.isStatement = true) ∧ ofEntries entries = map entries
  | combinedMap items => (∀ m ∈ items, m.isStatement = true) ∧ ofEntries items = combinedMap items
  | list items | call _ items _ => ∀ m ∈ items, m.isValue = true
  | literal _ | ident _ | envRef _ _ | comment _ => True
  | member left _ => left.isValue = true ∧ 5 ≤ left.grip
  | binary op left right =>
    left.isValue = true ∧ right.isValue = true ∧ op.strength ≤ left.grip ∧ op.strength < right.rank
  | unary _ operand => operand.isValue = true ∧ 4 ≤ operand.rank
  | ternary condition yes no =>
    condition.isValue = true ∧ yes.isValue = true ∧ no.isValue = true ∧ 1 ≤ condition.grip
  | group inner => inner.isValue = true
  | inclusion target _ => target.isValue = true
  | control branches => (∃ b ∈ branches.head?, b.condition.isSome = true) ∧ Links branches
  | pipeline body _ => ∀ m ∈ body, m.isStep = true
  | exec cmd args dir _ =>
    cmd.isValue = true ∧ (∀ m ∈ args, m.isValue = true) ∧ ∀ m ∈ dir, m.isValue = true
  | extract .. => False

variable (D : Token → Prop)

/-- A text that is the literal of a name token. -/
def NameFrom (s : String) : Prop :=
  ∃ t, D t ∧ t.isName = true ∧ t.literal = s

/-- A text that is the literal of an identifier. -/
def IdentFrom (s : String) : Prop :=
  ∃ t, D t ∧ t.kind = .ident ∧ t.literal = s

/-- The texts of a node are those of tokens with a given property. -/
def FromHere : Node → Prop
  | assign target _ style =>
    NameFrom D target.name ∧ (style = .flag → IdentFrom D target.name)
  | assignEach pairs => ∀ p ∈ pairs, IdentFrom D p.1.name
  | destructure targets _ => ∀ t ∈ targets, IdentFrom D t.name
  | block kind label _ _ => NameFrom D kind ∧ ∀ l ∈ label, NameFrom D l
  | container kind _ _ => NameFrom D kind
  | arrow _ source target _ _ => NameFrom D source ∧ NameFrom D target
  | literal v => v = .bool true ∨ ∃ t, D t ∧ t.Means v
  | ident name | call name _ _ => IdentFrom D name ∧ name ≠ "null"
  | member _ name => NameFrom D name
  | envRef name default =>
    ∃ t, D t ∧ t.kind = .envRef ∧ Rule.envReference t.literal = .envRef name default
  | comment text => ∃ t, D t ∧ t.kind = .comment ∧ t.literal = text
  | _ => True

/-- The shape of a tree that was read from tokens with a given property. -/
def Shaped (n : Node) : Prop :=
  Everywhere (fun n => n.FitsHere ∧ n.FromHere D) n

variable {D} in
/-- The shape of a tree is that of its root, and that of the trees below it. -/
theorem Shaped.intro {n : Node} (hf : n.FitsHere) (ho : n.FromHere D)
    (hb : ∀ m ∈ n.children, m.Shaped D) : n.Shaped D :=
  Everywhere.intro ⟨hf, ho⟩ hb

/-- The block that is made of a kind, a label and statements is a container only if there is no label. -/
theorem ofBlock_eq (kind : String) (label : Option String) (body : List Node) (pos : Position) :
    (ofBlock kind label body pos = block kind label body pos) ∨
      (label = none ∧ ofBlock kind label body pos = container kind body pos) := by
  unfold ofBlock
  simp only
  split
  next h =>
    simp only [Bool.and_eq_true, Option.isNone_iff_eq_none] at h
    exact .inr ⟨h.1.1, rfl⟩
  next => exact .inl rfl

/-- Entries in braces make a map, or a combined map if a block is among them. -/
theorem ofEntries_eq (entries : List Node) :
    ofEntries entries = map entries ∨ ofEntries entries = combinedMap entries := by
  unfold ofEntries
  split
  · exact .inr rfl
  · exact .inl rfl

variable {D}

/-- A block made of parts that were read has the shape of a statement, whichever of the two it becomes. -/
theorem shaped_ofBlock {kind : String} {label : Option String} {body : List Node} {pos : Position}
    (hk : NameFrom D kind) (hl : ∀ l ∈ label, NameFrom D l)
    (hs : ∀ m ∈ body, m.isStatement = true) (hb : ∀ m ∈ body, m.Shaped D) :
    (ofBlock kind label body pos).isStatement = true ∧ (ofBlock kind label body pos).Shaped D := by
  rcases ofBlock_eq kind label body pos with h | ⟨rfl, h⟩
  · rw [h]
    exact ⟨rfl, .intro ⟨hs, h⟩ ⟨hk, hl⟩ hb⟩
  · rw [h]
    exact ⟨rfl, .intro ⟨hs, h⟩ hk hb⟩

/-- Entries in braces have the shape of an operand. Nothing beside them can pull a part of it away, since
the closing brace holds it together. -/
theorem shaped_ofEntries {entries : List Node} (hs : ∀ m ∈ entries, m.isStatement = true)
    (hb : ∀ m ∈ entries, m.Shaped D) :
    (ofEntries entries).Shaped D ∧ (ofEntries entries).isValue = true ∧
      (ofEntries entries).rank = 5 ∧ (ofEntries entries).grip = 5 := by
  rcases ofEntries_eq entries with h | h
  · rw [h]
    exact ⟨.intro ⟨hs, h⟩ trivial hb, rfl, rfl, rfl⟩
  · rw [h]
    exact ⟨.intro ⟨hs, h⟩ trivial hb, rfl, rfl, rfl⟩

/-- What a condition in parentheses holds is shaped like the condition. -/
theorem shaped_ungroup {n : Node} (hv : n.isValue = true) (h : n.Shaped D) :
    (Rule.ungroup n).isValue = true ∧ (Rule.ungroup n).Shaped D := by
  cases n with
  | group inner => exact ⟨h.here.1, h.child _ (by simp [children, Rule.ungroup])⟩
  | _ => exact ⟨hv, h⟩

end Node

/-! ## 2. The token behind a result -/

namespace Cursor

/-- How strongly the next token pulls at an operand in front of it. -/
def pull (c : Cursor) : Nat :=
  if (c.peekAt 0).kind = .dot then 5
  else if (c.peekAt 0).kind = .question then 1
  else match c.operator? with
    | some op => op.strength
    | none => 0

/-- The tokens that are left end with the end of input, and all of them have a property. -/
def Holds (D : Token → Prop) (c : Cursor) : Prop :=
  (∃ t ∈ c.rest.getLast?, t.kind = .eof) ∧ ∀ t ∈ c.rest, D t

variable {D : Token → Prop} {c : Cursor}

theorem operator?_of_dot (h : (c.peekAt 0).kind = .dot) : c.operator? = none := by
  simp [operator?, h, BinaryOp.ofKind?]

theorem operator?_of_question (h : (c.peekAt 0).kind = .question) : c.operator? = none := by
  simp [operator?, h, BinaryOp.ofKind?]

/-- A dot pulls more strongly than anything else. -/
theorem pull_of_dot (h : (c.peekAt 0).kind = .dot) : c.pull = 5 := by
  simp [pull, h]

/-- The mark of a choice pulls least of all. -/
theorem pull_of_question (h : (c.peekAt 0).kind = .question) : c.pull = 1 := by
  simp [pull, h]

/-- An operator pulls as strongly as it binds. -/
theorem pull_of_operator {op : BinaryOp} (h : c.operator? = some op) : c.pull = op.strength := by
  have hd : (c.peekAt 0).kind ≠ .dot := fun hd => by simp [operator?_of_dot hd] at h
  have hq : (c.peekAt 0).kind ≠ .question := fun hq => by simp [operator?_of_question hq] at h
  simp [pull, hd, hq, h]

/-- Whatever pulls and is no dot pulls less than a prefix operator would. -/
theorem pull_lt (h : (c.peekAt 0).kind ≠ .dot) : c.pull < 4 := by
  unfold pull
  rw [if_neg h]
  split
  · decide
  · split
    next op _ => exact op.strength_lt
    next => decide

/-- Nothing pulls more strongly than a closed operand holds together. -/
theorem pull_le_five (c : Cursor) : c.pull ≤ 5 := by
  by_cases h : (c.peekAt 0).kind = .dot
  · exact Nat.le_of_eq (pull_of_dot h)
  · exact Nat.le_of_lt (Nat.lt_succ_of_lt (pull_lt h))

/-- Behind an operator loop nothing pulls more strongly than its operators. -/
theorem pull_le {s : Nat} (hd : (c.peekAt 0).kind ≠ .dot) (hs : 1 ≤ s)
    (h : ∀ op ∈ c.operator?, op.strength ≤ s) : c.pull ≤ s := by
  unfold pull
  rw [if_neg hd]
  split
  · exact hs
  · split
    next op hop => exact h op hop
    next => exact Nat.zero_le s

/-- A token that is no dot, no mark of a choice and no operator does not pull. -/
theorem pull_eq_zero (hd : (c.peekAt 0).kind ≠ .dot) (hq : (c.peekAt 0).kind ≠ .question)
    (h : ∀ op ∈ c.operator?, op.strength < 1) : c.pull = 0 := by
  unfold pull
  rw [if_neg hd, if_neg hq]
  split
  next op hop => exact absurd (h op hop) (by have := op.strength_pos; omega)
  next => rfl

/-- There is always a token left, because the end of input is. -/
theorem Holds.ne_nil (h : c.Holds D) : c.rest ≠ [] := by
  obtain ⟨⟨t, ht, -⟩, -⟩ := h
  intro hn
  rw [hn] at ht
  exact absurd ht (by simp)

/-- What holds of all tokens left holds of those that are looked at, also when the look goes past the end
and sees the last one again. -/
theorem Holds.peekAt (h : c.Holds D) (n : Nat) : D (c.peekAt n) := by
  unfold Cursor.peekAt
  split
  next t ht => exact h.2 t (List.mem_of_getElem? ht)
  next =>
    rw [List.getLastD_eq_getLast?, List.getLast?_eq_some_getLast h.ne_nil]
    exact h.2 _ (List.getLast_mem h.ne_nil)

/-- A token that is not the end of input may be passed. -/
theorem Holds.tail {line line' : Nat} {t : Token} {ts : List Token} (h : Holds D ⟨line, t :: ts⟩)
    (ht : t.kind ≠ .eof) : Holds D ⟨line', ts⟩ := by
  cases ts with
  | nil =>
    obtain ⟨⟨u, hu, hk⟩, -⟩ := h
    obtain rfl : t = u := by simpa using hu
    exact absurd hk ht
  | cons u ts =>
    refine ⟨?_, fun x hx => h.2 x (List.mem_cons_of_mem _ hx)⟩
    simpa [List.getLast?_cons_cons] using h.1

/-- Passing a token keeps what holds of the tokens left. -/
theorem Holds.skip (h : c.Holds D) : c.skip.Holds D := by
  obtain ⟨line, ts⟩ := c
  match ts, h with
  | [], h => exact h
  | [_], h => exact h
  | t :: u :: rest, h =>
    refine ⟨?_, fun x hx => h.2 x (List.mem_cons_of_mem t hx)⟩
    simpa [List.getLast?_cons_cons, Cursor.skip] using h.1

/-- So does passing all tokens of some kinds. The end of input stays in any case, since the last token is
never passed. -/
theorem Holds.skipKinds {p : Kind → Bool} {line : Nat} {ts : List Token}
    (h : Holds D ⟨line, ts⟩) : (Cursor.skipKinds p line ts).Holds D := by
  fun_induction Cursor.skipKinds p line ts with
  | case1 line t u rest _ ih =>
    refine ih ⟨?_, fun x hx => h.2 x (List.mem_cons_of_mem _ hx)⟩
    simpa [List.getLast?_cons_cons] using h.1
  | case2 => exact h
  | case3 => exact h

theorem Holds.skipSeparators (h : c.Holds D) : c.skipSeparators.Holds D :=
  Holds.skipKinds h

theorem Holds.skipComments (h : c.Holds D) : c.skipComments.Holds D :=
  Holds.skipKinds h

end Cursor

/-! ## 3. All rules at once -/

namespace Rule

open Node

variable (D : Token → Prop)

/-- A rule for a value: the result is shaped, and what else holds of it and the cursor behind it. -/
def ValueRule (r : Rule Node) (also : Node → Cursor → Prop) : Prop :=
  ∀ {c : Cursor} {t : Node} {d : Cursor}, c.Holds D → r.Gives c t d →
    d.Holds D ∧ t.Shaped D ∧ t.isValue = true ∧ also t d

/-- A rule for nodes of a kind that stand beside each other. -/
def ListRule (r : Rule (List Node)) (kind : Node → Bool) : Prop :=
  ∀ {c : Cursor} {ns : List Node} {d : Cursor}, c.Holds D → r.Gives c ns d →
    d.Holds D ∧ (∀ m ∈ ns, m.Shaped D) ∧ ∀ m ∈ ns, kind m = true

/-- A rule for a statement. -/
def StatementRule (r : Rule Node) : Prop :=
  ∀ {c : Cursor} {t : Node} {d : Cursor}, c.Holds D → r.Gives c t d →
    d.Holds D ∧ t.Shaped D ∧ t.isStatement = true

/-- A rule for links of an `IF` chain. -/
def LinksRule (r : Rule (List (Branch Node))) : Prop :=
  ∀ {c : Cursor} {bs : List (Branch Node)} {d : Cursor}, c.Holds D → r.Gives c bs d →
    d.Holds D ∧ Links bs ∧ ∀ b ∈ bs, ∀ m ∈ b.condition.toList ++ b.body, m.Shaped D

/-- A node that holds together behind its front as it stands. -/
def Closed (t : Node) (d : Cursor) : Prop :=
  t.rank = 5 ∧ d.pull ≤ t.grip

/-- What holds together as strongly as can be is closed in front of every token. -/
theorem closed_of_grip {t : Node} {d : Cursor} (hr : t.rank = 5) (hg : t.grip = 5) :
    Closed t d :=
  ⟨hr, hg ▸ d.pull_le_five⟩

/-- What all rules with budget `n` give. -/
structure Sound (n : Nat) : Prop where
  expression : ValueRule D (expression n) fun _ d => d.pull = 0
  binary : ∀ {least : Nat}, 1 ≤ least → least ≤ 4 → ValueRule D (binary n least) fun t d =>
    least ≤ t.rank ∧ d.pull ≤ t.grip ∧ (d.peekAt 0).kind ≠ .dot ∧
      ∀ op ∈ d.operator?, op.strength < least
  climb : ∀ {least : Nat} {left : Node} {c : Cursor} {t : Node} {d : Cursor}, 1 ≤ least →
    left.Shaped D → left.isValue = true → least ≤ left.rank → c.pull ≤ left.grip →
    (c.peekAt 0).kind ≠ .dot → c.Holds D → (climb n least left).Gives c t d →
    d.Holds D ∧ t.Shaped D ∧ t.isValue = true ∧ least ≤ t.rank ∧ d.pull ≤ t.grip ∧
      (d.peekAt 0).kind ≠ .dot ∧ ∀ op ∈ d.operator?, op.strength < least
  unary : ValueRule D (unary n) fun t d =>
    4 ≤ t.rank ∧ d.pull ≤ t.grip ∧ (d.peekAt 0).kind ≠ .dot
  members : ∀ {left : Node} {c : Cursor} {t : Node} {d : Cursor}, left.Shaped D →
    left.isValue = true → Closed left c → c.Holds D → (members n left).Gives c t d →
    d.Holds D ∧ t.Shaped D ∧ t.isValue = true ∧ Closed t d ∧ (d.peekAt 0).kind ≠ .dot
  primary : ValueRule D (primary n) Closed
  items : ∀ {close : Kind} {context : String}, ListRule D (items n close context) isValue
  body : ∀ {context : String}, ListRule D (body n context) isStatement
  bodyItems : ∀ {context : String}, ListRule D (bodyItems n context) isStatement
  statement : StatementRule D (statement n)
  arrow : ∀ {relation : Option Relation} {c : Cursor} {t : Node} {d : Cursor}, c.Holds D →
    (arrow n relation).Gives c t d →
    d.Holds D ∧ t.Shaped D ∧ t.isStatement = true ∧ t.isStep = true
  blockOrAssignment : ∀ {c : Cursor} {t : Node} {d : Cursor}, (c.peekAt 0).isName = true →
    c.Holds D → (blockOrAssignment n).Gives c t d →
    d.Holds D ∧ t.Shaped D ∧ t.isStatement = true ∧
      ((c.peekAt 1).kind = .assign ∨ (c.peekAt 1).kind = .colon → t.isStep = true)
  moreValues : ∀ {limit : Nat}, ListRule D (moreValues n limit) isValue
  control : ∀ {c : Cursor} {bs : List (Branch Node)} {d : Cursor}, c.Holds D →
    (control n).Gives c bs d → d.Holds D ∧ (∃ b ∈ bs.head?, b.condition.isSome = true) ∧
      Links bs ∧ ∀ b ∈ bs, ∀ m ∈ b.condition.toList ++ b.body, m.Shaped D
  elseChain : LinksRule D (elseChain n)
  directive : ∀ {c : Cursor} {t : Node} {d : Cursor}, c.Holds D → (directive n).Gives c t d →
    d.Holds D ∧ t.Shaped D ∧ t.isValue = true ∧ t.isStatement = true ∧ Closed t d
  execArguments : ∀ {sign : Token} {cmd args dir : Option Node} {c : Cursor} {t : Node}
    {d : Cursor}, (∀ m ∈ cmd.toList ++ (args.toList ++ dir.toList), m.Shaped D ∧ m.isValue = true) →
    c.Holds D → (execArguments n sign cmd args dir).Gives c t d →
    d.Holds D ∧ t.Shaped D ∧ ∃ cmd args dir, t = .exec cmd args dir sign.pos
  moreExecArguments : ∀ {sign : Token} {cmd args dir : Option Node} {c : Cursor} {t : Node}
    {d : Cursor}, (∀ m ∈ cmd.toList ++ (args.toList ++ dir.toList), m.Shaped D ∧ m.isValue = true) →
    c.Holds D → (moreExecArguments n sign cmd args dir).Gives c t d →
    d.Holds D ∧ t.Shaped D ∧ ∃ cmd args dir, t = .exec cmd args dir sign.pos
  pipelineItems : ListRule D (pipelineItems n) isStep

variable {D}

/-- With an empty budget there is nothing to prove. -/
theorem sound_zero : Sound D 0 := by
  constructor <;> repeat intro
  all_goals
    rename_i h
    exact absurd h (not_gives_exhausted _ _ _)

/-! ### Expressions -/

section Expressions

variable {n : Nat} (S : Sound D n)
include S

/-- A choice is shaped and nothing pulls behind it: its condition ends in front of no operator, and its last
value is a choice again. -/
theorem sound_expression : ValueRule D (expression (n + 1)) fun _ d => d.pull = 0 := by
  intro c t d hc h
  obtain ⟨condition, e, hb, h⟩ := (gives_expression _ _ _ _).1 h
  obtain ⟨he, hs, hv, hr, hg, hd, ho⟩ := S.binary (Nat.le_refl 1) (by decide) hc hb
  rcases h with ⟨hq, rfl, rfl⟩ | ⟨hq, yes, e₁, no, hy, -, hn, rfl⟩
  · exact ⟨he, hs, hv, Cursor.pull_eq_zero hd hq ho⟩
  · obtain ⟨he₁, hys, hyv, -⟩ := S.expression he.skip hy
    obtain ⟨hd, hns, hnv, hp⟩ := S.expression he₁.skip hn
    -- The question mark behind the condition pulled at it and did not win.
    rw [Cursor.pull_of_question hq] at hg
    refine ⟨hd, .intro ⟨hv, hyv, hnv, hg⟩ trivial ?_, rfl, hp⟩
    simp [children, hs, hys, hns]

/-- Operands joined by operators. At least the given strength holds the result together, and the operator
that stopped the loop is weaker. -/
theorem sound_binary {least : Nat} (h1 : 1 ≤ least) (h4 : least ≤ 4) :
    ValueRule D (binary (n + 1) least) fun t d => least ≤ t.rank ∧ d.pull ≤ t.grip ∧
      (d.peekAt 0).kind ≠ .dot ∧ ∀ op ∈ d.operator?, op.strength < least := by
  intro c t d hc h
  obtain ⟨left, e, hu, hl⟩ := (gives_binary _ _ _ _ _).1 h
  obtain ⟨he, hs, hv, hr, hg, hd⟩ := S.unary hc hu
  exact S.climb h1 hs hv (Nat.le_trans h4 hr) hg hd he hl

/-- The loop over operators. The left operand grows with each turn, and what is assumed of it at the
beginning of a turn holds of the longer one at the end. -/
theorem sound_climb {least : Nat} {left : Node} {c : Cursor} {t : Node} {d : Cursor}
    (h1 : 1 ≤ least) (hs : left.Shaped D) (hv : left.isValue = true) (hr : least ≤ left.rank)
    (hp : c.pull ≤ left.grip) (hd : (c.peekAt 0).kind ≠ .dot) (hc : c.Holds D)
    (h : (climb (n + 1) least left).Gives c t d) :
    d.Holds D ∧ t.Shaped D ∧ t.isValue = true ∧ least ≤ t.rank ∧ d.pull ≤ t.grip ∧
      (d.peekAt 0).kind ≠ .dot ∧ ∀ op ∈ d.operator?, op.strength < least := by
  rcases (gives_climb _ _ _ _ _ _).1 h with ⟨ho, rfl, rfl⟩ | ⟨op, right, e, ho, hle, hb, hl⟩
  · exact ⟨hc, hs, hv, hr, hp, hd, ho⟩
  · have h4 := op.strength_lt
    obtain ⟨he, hrs, hrv, hrr, hrg, hrd, hro⟩ := S.binary (by omega) (by omega) hc.skip hb
    rw [Cursor.pull_of_operator ho] at hp
    have hes : e.pull ≤ op.strength :=
      Cursor.pull_le hrd op.strength_pos fun o h => Nat.le_of_lt_succ (hro o h)
    have hs' : (Node.binary op left right).Shaped D :=
      .intro ⟨hv, hrv, hp, hrr⟩ trivial (by simp [children, hs, hrs])
    exact S.climb h1 hs' rfl hle (Nat.le_min.2 ⟨hes, hrg⟩) hrd he hl

/-- An operand with operators in front of it holds together against every binary operator. -/
theorem sound_unary : ValueRule D (unary (n + 1)) fun t d =>
    4 ≤ t.rank ∧ d.pull ≤ t.grip ∧ (d.peekAt 0).kind ≠ .dot := by
  intro c t d hc h
  rcases (gives_unary _ _ _ _).1 h with ⟨op, operand, -, hu, rfl⟩ | ⟨-, left, e, hp, hm⟩
  · obtain ⟨hd, hs, hv, hr, hg, hk⟩ := S.unary hc.skip hu
    refine ⟨hd, .intro ⟨hv, hr⟩ trivial (by simp [children, hs]), rfl, Nat.le_refl 4, ?_, hk⟩
    exact Nat.le_min.2 ⟨Nat.le_of_lt (Cursor.pull_lt hk), hg⟩
  · obtain ⟨he, hs, hv, hcl⟩ := S.primary hc hp
    obtain ⟨hd, hs, hv, ⟨hr, hg⟩, hk⟩ := S.members hs hv hcl he hm
    exact ⟨hd, hs, hv, by omega, hg, hk⟩

/-- The loop over members. A member of something closed is closed again. -/
theorem sound_members {left : Node} {c : Cursor} {t : Node} {d : Cursor} (hs : left.Shaped D)
    (hv : left.isValue = true) (hcl : Closed left c) (hc : c.Holds D)
    (h : (members (n + 1) left).Gives c t d) :
    d.Holds D ∧ t.Shaped D ∧ t.isValue = true ∧ Closed t d ∧ (d.peekAt 0).kind ≠ .dot := by
  rcases (gives_members _ _ _ _ _).1 h with ⟨hk, rfl, rfl⟩ | ⟨hk, hn, hm⟩
  · exact ⟨hc, hs, hv, hcl, hk⟩
  · have hg := hcl.2
    rw [Cursor.pull_of_dot hk] at hg
    have hs' : (Node.member left (c.skip.peekAt 0).literal).Shaped D :=
      .intro ⟨hv, hg⟩ ⟨_, hc.skip.peekAt 0, hn, rfl⟩ (by simp [children, hs])
    exact S.members hs' rfl (closed_of_grip rfl rfl) hc.skip.skip hm

/-- An operand is closed at once, whichever it is: a single token, something in brackets, or a directive
whose last part is an expression that has taken all it can. -/
theorem sound_primary : ValueRule D (primary (n + 1)) Closed := by
  intro c t d hc h
  cases (gives_primary _ _ _ _).1 h with
  | number hk hv =>
    exact ⟨hc.skip, .intro trivial (.inr ⟨_, hc.peekAt 0, .inl ⟨hk, hv⟩⟩) (by simp [children]), rfl,
      closed_of_grip rfl rfl⟩
  | str hk =>
    exact ⟨hc.skip, .intro trivial (.inr ⟨_, hc.peekAt 0, .inr (.inl ⟨hk, rfl⟩)⟩)
      (by simp [children]), rfl, closed_of_grip rfl rfl⟩
  | heredoc hk =>
    exact ⟨hc.skip, .intro trivial (.inr ⟨_, hc.peekAt 0, .inr (.inr (.inl ⟨hk, rfl⟩))⟩)
      (by simp [children]), rfl, closed_of_grip rfl rfl⟩
  | bool hk =>
    exact ⟨hc.skip, .intro trivial (.inr ⟨_, hc.peekAt 0, .inr (.inr (.inr (.inl ⟨hk, rfl⟩)))⟩)
      (by simp [children]), rfl, closed_of_grip rfl rfl⟩
  | null hk hn =>
    exact ⟨hc.skip, .intro trivial
      (.inr ⟨_, hc.peekAt 0, .inr (.inr (.inr (.inr ⟨hk, hn, rfl⟩)))⟩) (by simp [children]), rfl,
      closed_of_grip rfl rfl⟩
  | call hk hn _ _ ha =>
    obtain ⟨hd, hs, hv⟩ := S.items hc.skip.skip ha
    exact ⟨hd, .intro hv ⟨⟨_, hc.peekAt 0, hk, rfl⟩, hn⟩ hs, rfl, closed_of_grip rfl rfl⟩
  | ident hk hn _ =>
    exact ⟨hc.skip, .intro trivial ⟨⟨_, hc.peekAt 0, hk, rfl⟩, hn⟩ (by simp [children]), rfl,
      closed_of_grip rfl rfl⟩
  | envRef hk =>
    exact ⟨hc.skip, .intro trivial ⟨_, hc.peekAt 0, hk, rfl⟩ (by simp [envReference, children]), rfl,
      closed_of_grip rfl rfl⟩
  | group hk hi hp =>
    obtain ⟨he, hs, hv, -⟩ := S.expression hc.skip hi
    exact ⟨he.skip, .intro hv trivial (by simp [children, hs]), rfl, closed_of_grip rfl rfl⟩
  | list hk hi =>
    obtain ⟨hd, hs, hv⟩ := S.items hc.skip hi
    exact ⟨hd, .intro hv trivial hs, rfl, closed_of_grip rfl rfl⟩
  | entries hk hb =>
    obtain ⟨hd, hs, hv⟩ := S.body hc hb
    obtain ⟨hs, hv, hr, hg⟩ := shaped_ofEntries hv hs
    exact ⟨hd, hs, hv, closed_of_grip hr hg⟩
  | directive hk hd =>
    obtain ⟨hd, hs, hv, -, hcl⟩ := S.directive hc hd
    exact ⟨hd, hs, hv, hcl⟩

/-- Items are values. -/
theorem sound_items {close : Kind} {context : String} :
    ListRule D (items (n + 1) close context) isValue := by
  intro c ns d hc h
  rcases (gives_items _ _ _ _ _ _).1 h with ⟨-, rfl, rfl⟩ | ⟨-, item, e, hi, h⟩
  · exact ⟨hc.skipComments.skip, by simp, by simp⟩
  · obtain ⟨he, hs, hv, -⟩ := S.expression hc.skipComments hi
    rcases h with ⟨-, others, ho, rfl⟩ | ⟨-, -, rfl, rfl⟩
    · obtain ⟨hd, hss, hvs⟩ := S.items he.skipComments.skip ho
      exact ⟨hd, by simpa [hs] using hss, by simpa [hv] using hvs⟩
    · exact ⟨he.skipComments.skip, by simpa using hs, by simpa using hv⟩

end Expressions

/-! ### Statements -/

/-- The targets in front of an equals sign are identifiers, and there are two at least if a comma
follows the first one. -/
theorem targets_of_targetList? {c : Cursor} {targets : List Target} {sign : Token}
    {rest : List Token} (hc : c.Holds D) (h : targetList? c.rest = some (targets, sign, rest))
    (hn : (c.peekAt 1).kind = .comma) :
    (∀ t ∈ targets, IdentFrom D t.name) ∧ 2 ≤ targets.length ∧
      Cursor.Holds D ⟨sign.pos.line, rest⟩ := by
  -- The search goes from target to target, and it is about the tokens only. So the induction is along
  -- it, for any line, and with one target at least.
  have all : ∀ (line : Nat) (ts : List Token) (targets : List Target), Cursor.Holds D ⟨line, ts⟩ →
      targetList? ts = some (targets, sign, rest) →
      (∀ t ∈ targets, IdentFrom D t.name) ∧ 1 ≤ targets.length ∧
        Cursor.Holds D ⟨sign.pos.line, rest⟩ := by
    intro line ts targets hc h
    fun_induction targetList? ts generalizing line targets with
    | case1 t u rest' hk hu ih =>
      obtain ⟨⟨targets', sign', rest''⟩, ht, he⟩ := Option.map_eq_some_iff.1 h
      simp only [Prod.mk.injEq] at he
      obtain ⟨rfl, rfl, rfl⟩ := he
      have hc' : Cursor.Holds D ⟨0, u :: rest'⟩ := hc.tail (by simp [hk])
      obtain ⟨hi, -, hr⟩ := ih 0 targets' (hc'.tail (by simp [hu])) ht
      refine ⟨?_, by simp, hr⟩
      intro x hx
      rcases List.mem_cons.1 hx with rfl | hx
      · exact ⟨t, hc.2 t (by simp), hk, rfl⟩
      · exact hi x hx
    | case2 t u rest' hk _ hu =>
      simp only [Option.some.injEq, Prod.mk.injEq] at h
      obtain ⟨rfl, rfl, rfl⟩ := h
      have hc' : Cursor.Holds D ⟨0, u :: rest'⟩ := hc.tail (by simp [hk])
      refine ⟨?_, by simp, hc'.tail (by simp [hu])⟩
      intro x hx
      rw [List.mem_singleton.1 hx]
      exact ⟨t, hc.2 t (by simp), hk, rfl⟩
    | case3 | case4 | case5 => simp at h
  obtain ⟨line, ts⟩ := c
  match ts with
  | [] | [_] => simp [targetList?] at h
  | t :: u :: ts =>
    have hu : u.kind = .comma := hn
    by_cases hk : t.kind = .ident
    · simp only [targetList?, hk, hu, if_true, Option.map_eq_some_iff] at h
      obtain ⟨⟨targets', sign', rest'⟩, ht, he⟩ := h
      simp only [Prod.mk.injEq] at he
      obtain ⟨rfl, rfl, rfl⟩ := he
      have hc' : Cursor.Holds D ⟨0, u :: ts⟩ := hc.tail (by simp [hk])
      obtain ⟨hi, h1, hr⟩ := all 0 ts targets' (hc'.tail (by simp [hu])) ht
      refine ⟨?_, by simpa using h1, hr⟩
      intro x hx
      rcases List.mem_cons.1 hx with rfl | hx
      · exact ⟨t, hc.2 t (by simp), hk, rfl⟩
      · exact hi x hx
    · simp [targetList?, hk] at h

section Statements

variable {n : Nat} (S : Sound D n)
include S

/-- Statements in braces. -/
theorem sound_body {context : String} : ListRule D (body (n + 1) context) isStatement := by
  intro c ns d hc h
  obtain ⟨-, hb⟩ := (gives_body _ _ _ _ _).1 h
  exact S.bodyItems hc.skip hb

/-- Statements up to a brace. Each is shaped by the rule for statements, and nothing else is added. -/
theorem sound_bodyItems {context : String} :
    ListRule D (bodyItems (n + 1) context) isStatement := by
  intro c ns d hc h
  rcases (gives_bodyItems _ _ _ _ _).1 h with ⟨-, rfl, rfl⟩ |
    ⟨-, -, first, e, others, hf, ho, rfl⟩
  · exact ⟨hc.skipSeparators.skip, by simp, by simp⟩
  · obtain ⟨he, hs, hk⟩ := S.statement hc.skipSeparators hf
    obtain ⟨hd, hss, hks⟩ := S.bodyItems he ho
    exact ⟨hd, by simpa [hs] using hss, by simpa [hk] using hks⟩

/-- A statement is shaped and may stand as one. A directive may stand as a value as well, but a value may
not stand here. -/
theorem sound_statement : StatementRule D (statement (n + 1)) := by
  intro c t d hc h
  cases (gives_statement _ _ _ _).1 h with
  | comment hk =>
    exact ⟨hc.skip, .intro trivial ⟨_, hc.peekAt 0, hk, rfl⟩ (by simp [children]), rfl⟩
  | directive _ hd =>
    obtain ⟨hd, hs, -, hk, -⟩ := S.directive hc hd
    exact ⟨hd, hs, hk⟩
  | control _ hb =>
    obtain ⟨hd, hf, hl, hs⟩ := S.control hc hb
    refine ⟨hd, .intro ⟨hf, hl⟩ trivial ?_, rfl⟩
    intro m hm
    obtain ⟨b, hb, hm⟩ := List.mem_flatMap.1 hm
    exact hs b hb m hm
  | arrow _ _ hr =>
    obtain ⟨hd, hs, hk, -⟩ := S.arrow hc hr
    exact ⟨hd, hs, hk⟩
  | named hk _ hb =>
    obtain ⟨hd, hs, hk, -⟩ := S.blockOrAssignment hk hc hb
    exact ⟨hd, hs, hk⟩

/-- An arrow. Its texts are names, its properties statements, and it may stand in a pipeline. -/
theorem sound_arrow {relation : Option Relation} {c : Cursor} {t : Node} {d : Cursor}
    (hc : c.Holds D) (h : (arrow (n + 1) relation).Gives c t d) :
    d.Holds D ∧ t.Shaped D ∧ t.isStatement = true ∧ t.isStep = true := by
  obtain ⟨e, he, hs, -, ht, properties, hp, rfl⟩ := (gives_arrow _ _ _ _ _).1 h
  have he : e.Holds D := by
    rw [he]
    split
    · exact hc.skip
    · exact hc
  have names : NameFrom D (e.peekAt 0).literal ∧ NameFrom D (e.skip.skip.peekAt 0).literal :=
    ⟨⟨_, he.peekAt 0, hs, rfl⟩, ⟨_, he.skip.skip.peekAt 0, ht, rfl⟩⟩
  rcases hp with ⟨-, hb⟩ | ⟨-, rfl, rfl⟩
  · obtain ⟨hd, hs, hk⟩ := S.body he.skip.skip.skip hb
    exact ⟨hd, .intro hk names hs, rfl, rfl⟩
  · exact ⟨he.skip.skip.skip, .intro (by simp [FitsHere]) names (by simp [children]), rfl, rfl⟩

/-- A statement that begins with a name, in all the ways in which it can go on. That it may stand in a
pipeline is known where an equals sign or a colon follows the name, for then it is no flag and no block. -/
theorem sound_blockOrAssignment {c : Cursor} {t : Node} {d : Cursor}
    (hn : (c.peekAt 0).isName = true) (hc : c.Holds D)
    (h : (blockOrAssignment (n + 1)).Gives c t d) :
    d.Holds D ∧ t.Shaped D ∧ t.isStatement = true ∧
      ((c.peekAt 1).kind = .assign ∨ (c.peekAt 1).kind = .colon → t.isStep = true) := by
  have name : NameFrom D (c.peekAt 0).literal := ⟨_, hc.peekAt 0, hn, rfl⟩
  cases (gives_blockOrAssignment _ _ _ _).1 h with
  | block hb h =>
    obtain ⟨hd, hs, hk⟩ := S.body hc.skip h
    have label : ∀ l ∈ (none : Option String), NameFrom D l := by simp
    obtain ⟨hk, hs⟩ := shaped_ofBlock name label hk hs
    exact ⟨hd, hs, hk, by simp [hb]⟩
  | labelled hn _ _ h =>
    obtain ⟨hd, hs, hk⟩ := S.body hc.skip.skip h
    have label : ∀ l ∈ some (c.peekAt 1).literal, NameFrom D l := by
      intro l hl
      obtain rfl := Option.some.inj hl
      exact ⟨_, hc.peekAt 1, hn, rfl⟩
    obtain ⟨hk, hs⟩ := shaped_ofBlock name label hk hs
    refine ⟨hd, hs, hk, ?_⟩
    rintro (h | h) <;> simp [Token.isName, h] at hn
  | assign _ hv =>
    obtain ⟨hd, hs, hk, -⟩ := S.expression hc.skip.skip hv
    by_cases hcol : (c.peekAt 1).kind = .colon
    · exact ⟨hd, .intro ⟨hk, by simp [hcol]⟩ ⟨name, by simp [hcol]⟩ (by simp [children, hs]), rfl,
        by simp [isStep, hcol]⟩
    · exact ⟨hd, .intro ⟨hk, by simp [hcol]⟩ ⟨name, by simp [hcol]⟩ (by simp [children, hs]), rfl,
        by simp [isStep, hcol]⟩
  | @assignEach targets _ _ first others _ _ hk hn ht hf ho hl =>
    -- The targets are in front of the equals sign, and as many values behind it.
    obtain ⟨hi, h2, hr⟩ := targets_of_targetList? hc ht hn
    obtain ⟨he, hs, hv, -⟩ := S.expression hr hf
    obtain ⟨hd, hss, hvs⟩ := S.moreValues he ho
    have value : ∀ p ∈ targets.zip (first :: others), p.2.Shaped D ∧ p.2.isValue = true := by
      intro p hp
      rcases List.mem_cons.1 (List.of_mem_zip hp).2 with h | h
      · rw [h]
        exact ⟨hs, hv⟩
      · exact ⟨hss _ h, hvs _ h⟩
    refine ⟨hd, .intro ⟨?_, fun p hp => (value p hp).2⟩ ?_ ?_, rfl, by simp [hn]⟩
    · simp only [List.length_zip, List.length_cons]
      omega
    · exact fun p hp => hi _ (List.of_mem_zip hp).1
    · intro m hm
      obtain ⟨p, hp, rfl⟩ := List.mem_map.1 hm
      exact (value p hp).1
  | destructure hk hn ht hf ho hl =>
    obtain ⟨hi, h2, hr⟩ := targets_of_targetList? hc ht hn
    obtain ⟨he, hs, hv, -⟩ := S.expression hr hf
    obtain ⟨hd, -⟩ := S.moreValues he ho
    exact ⟨hd, .intro ⟨h2, hv⟩ hi (by simp [children, hs]), rfl, by simp [hn]⟩
  | flag hk _ _ ha _ =>
    refine ⟨hc.skip, .intro ⟨rfl, by simp⟩ ⟨name, fun _ => ⟨_, hc.peekAt 0, hk, rfl⟩⟩ ?_, rfl,
      fun h => absurd h ha⟩
    intro m hm
    rw [List.mem_singleton.1 hm]
    exact .intro trivial (.inl rfl) (by simp [children])

/-- More values are values. -/
theorem sound_moreValues {limit : Nat} : ListRule D (moreValues (n + 1) limit) isValue := by
  intro c ns d hc h
  cases limit with
  | zero =>
    obtain ⟨rfl, rfl⟩ := (gives_moreValues_zero _ _ _ _).1 h
    exact ⟨hc, by simp, by simp⟩
  | succ limit =>
    rcases (gives_moreValues _ _ _ _ _).1 h with ⟨-, rfl, rfl⟩ | ⟨-, value, e, others, hv, ho, rfl⟩
    · exact ⟨hc, by simp, by simp⟩
    · obtain ⟨he, hs, hk, -⟩ := S.expression hc.skip hv
      obtain ⟨hd, hss, hks⟩ := S.moreValues he ho
      exact ⟨hd, by simpa [hs] using hss, by simpa [hk] using hks⟩

/-- A chain from a keyword with a condition on. The first link has a condition, as the keyword asks for
one. -/
theorem sound_control {c : Cursor} {bs : List (Branch Node)} {d : Cursor} (hc : c.Holds D)
    (h : (control (n + 1)).Gives c bs d) :
    d.Holds D ∧ (∃ b ∈ bs.head?, b.condition.isSome = true) ∧ Links bs ∧
      ∀ b ∈ bs, ∀ m ∈ b.condition.toList ++ b.body, m.Shaped D := by
  obtain ⟨condition, e, statements, e₁, others, hx, hb, ho, rfl⟩ := (gives_control _ _ _ _).1 h
  obtain ⟨he, hcs, hcv, -⟩ := S.expression hc.skip hx
  obtain ⟨he₁, hbs, hbk⟩ := S.body he hb
  obtain ⟨hd, hl, hs⟩ := S.elseChain he₁ ho
  obtain ⟨hcv, hcs⟩ := shaped_ungroup hcv hcs
  refine ⟨hd, ⟨_, rfl, rfl⟩, ⟨by simp, by simpa using hcv, hbk, hl⟩, ?_⟩
  intro b hb m hm
  rcases List.mem_cons.1 hb with rfl | hb
  · rcases List.mem_append.1 hm with hm | hm
    · obtain rfl : m = ungroup condition := by simpa using hm
      exact hcs
    · exact hbs m hm
  · exact hs b hb m hm

/-- The links behind one with a condition. A link without a condition ends the chain, because the rule
returns there. -/
theorem sound_elseChain : LinksRule D (elseChain (n + 1)) := by
  intro c bs d hc h
  rcases (gives_elseChain _ _ _ _).1 h with ⟨-, rfl, rfl⟩ | ⟨-, ⟨-, h⟩ | ⟨-, ⟨-, h⟩ |
    ⟨-, statements, hb, rfl⟩⟩⟩
  · exact ⟨hc, trivial, by simp⟩
  · obtain ⟨hd, -, hl, hs⟩ := S.control hc.skipComments h
    exact ⟨hd, hl, hs⟩
  · obtain ⟨hd, -, hl, hs⟩ := S.control hc.skipComments.skip h
    exact ⟨hd, hl, hs⟩
  · obtain ⟨hd, hs, hk⟩ := S.body hc.skipComments.skip hb
    exact ⟨hd, ⟨by simp, by simp, hk, trivial⟩, by simpa using hs⟩

end Statements

/-! ### Directives -/

section Directives

variable {n : Nat} (S : Sound D n)
include S

/-- A directive, which may stand as a value and as a statement. -/
theorem sound_directive {c : Cursor} {t : Node} {d : Cursor} (hc : c.Holds D)
    (h : (directive (n + 1)).Gives c t d) :
    d.Holds D ∧ t.Shaped D ∧ t.isValue = true ∧ t.isStatement = true ∧ Closed t d := by
  obtain ⟨-, -, h⟩ := (gives_directive _ _ _ _).1 h
  cases h with
  | inclusion _ ht =>
    obtain ⟨hd, hs, hv, hp⟩ := S.expression hc.skip.skip ht
    exact ⟨hd, .intro hv trivial (by simp [children, hs]), rfl, rfl, rfl, Nat.le_of_eq hp⟩
  | exec _ _ ha =>
    obtain ⟨hd, hs, cmd, args, dir, rfl⟩ := S.execArguments (by simp) hc.skip.skip.skip ha
    exact ⟨hd, hs, rfl, rfl, closed_of_grip rfl rfl⟩
  | pipeline _ _ hi =>
    obtain ⟨hd, hs, hk⟩ := S.pipelineItems hc.skip.skip.skip hi
    exact ⟨hd, .intro hk trivial hs, rfl, rfl, closed_of_grip rfl rfl⟩

omit S in
/-- An execution is made when a command is among the arguments; without one there is only a fault. -/
theorem sound_execNode {sign : Token} {cmd args dir : Option Node} {c : Cursor} {t : Node}
    {d : Cursor}
    (ha : ∀ m ∈ cmd.toList ++ (args.toList ++ dir.toList), m.Shaped D ∧ m.isValue = true)
    (hc : c.Holds D) (h : (execNode sign cmd args dir).Gives c t d) :
    d.Holds D ∧ t.Shaped D ∧ ∃ cmd args dir, t = .exec cmd args dir sign.pos := by
  obtain ⟨program, rfl, rfl, rfl⟩ := (gives_execNode _ _ _ _ _ _ _).1 h
  refine ⟨hc, .intro ⟨(ha _ (by simp)).2, fun m hm => (ha m ?_).2, fun m hm => (ha m ?_).2⟩
    trivial fun m hm => (ha m hm).1, _, _, _, rfl⟩
  · simp [Option.mem_def.1 hm]
  · simp [Option.mem_def.1 hm]

/-- The arguments of an execution. Those that were read already are values, and the one that is read here is
a value too. -/
theorem sound_execArguments {sign : Token} {cmd args dir : Option Node} {c : Cursor} {t : Node}
    {d : Cursor}
    (ha : ∀ m ∈ cmd.toList ++ (args.toList ++ dir.toList), m.Shaped D ∧ m.isValue = true)
    (hc : c.Holds D) (h : (execArguments (n + 1) sign cmd args dir).Gives c t d) :
    d.Holds D ∧ t.Shaped D ∧ ∃ cmd args dir, t = .exec cmd args dir sign.pos := by
  simp only [List.mem_append, Option.mem_toList] at ha
  rcases (gives_execArguments _ _ _ _ _ _ _ _).1 h with ⟨-, h⟩ | ⟨-, -, value, e, hv, h⟩
  · exact sound_execNode (by simpa using ha) hc.skipComments.skip h
  · obtain ⟨he, hs, hk, -⟩ := S.expression hc.skipComments.skip.skip hv
    rcases h with ⟨-, h⟩ | ⟨-, h⟩ | ⟨-, h⟩
    all_goals
      refine S.moreExecArguments (fun m hm => ?_) he h
      simp only [Option.toList_some, List.mem_append, List.mem_singleton, Option.mem_toList] at hm
    · rcases hm with rfl | hm
      · exact ⟨hs, hk⟩
      · exact ha m (.inr hm)
    · rcases hm with hm | rfl | hm
      · exact ha m (.inl hm)
      · exact ⟨hs, hk⟩
      · exact ha m (.inr (.inr hm))
    · rcases hm with hm | hm | rfl
      · exact ha m (.inl hm)
      · exact ha m (.inr (.inl hm))
      · exact ⟨hs, hk⟩

/-- What follows an argument adds nothing to the arguments. -/
theorem sound_moreExecArguments {sign : Token} {cmd args dir : Option Node} {c : Cursor}
    {t : Node} {d : Cursor}
    (ha : ∀ m ∈ cmd.toList ++ (args.toList ++ dir.toList), m.Shaped D ∧ m.isValue = true)
    (hc : c.Holds D) (h : (moreExecArguments (n + 1) sign cmd args dir).Gives c t d) :
    d.Holds D ∧ t.Shaped D ∧ ∃ cmd args dir, t = .exec cmd args dir sign.pos := by
  rcases (gives_moreExecArguments _ _ _ _ _ _ _ _).1 h with ⟨-, h⟩ | ⟨-, h⟩
  · exact S.execArguments ha hc.skipComments.skip h
  · exact sound_execNode ha hc.skipComments.skip h

/-- The items of a pipeline are those that may stand in one. -/
theorem sound_pipelineItems : ListRule D (pipelineItems (n + 1)) isStep := by
  intro c ns d hc h
  have hc := hc.skipSeparators
  cases (gives_pipelineItems _ _ _ _).1 h with
  | close => exact ⟨hc.skip, by simp, by simp⟩
  | comment hk ho =>
    obtain ⟨hd, hss, hks⟩ := S.pipelineItems hc.skip ho
    have hs : (Node.comment (c.skipSeparators.peekAt 0).literal).Shaped D :=
      .intro trivial ⟨_, hc.peekAt 0, hk, rfl⟩ (by simp [children])
    exact ⟨hd, by simpa [hs] using hss, by simpa [isStep] using hks⟩
  | arrow _ _ hf ho =>
    obtain ⟨he, hs, -, hk⟩ := S.arrow hc hf
    obtain ⟨hd, hss, hks⟩ := S.pipelineItems he ho
    exact ⟨hd, by simpa [hs] using hss, by simpa [hk] using hks⟩
  | step hn _ ha hf ho =>
    obtain ⟨he, hs, -, hk⟩ := S.blockOrAssignment hn hc hf
    obtain ⟨hd, hss, hks⟩ := S.pipelineItems he ho
    exact ⟨hd, by simpa [hs] using hss, by simpa [hk ha] using hks⟩

end Directives

/-! ## 4. What was read is shaped -/

/-- All rules, whatever their budget. The induction goes from the rules with a smaller budget to those that
call them. -/
theorem sound (n : Nat) : Sound D n := by
  induction n with
  | zero => exact sound_zero
  | succ n S => exact {
      expression := sound_expression S
      binary := sound_binary S
      climb := sound_climb S
      unary := sound_unary S
      members := sound_members S
      primary := sound_primary S
      items := sound_items S
      body := sound_body S
      bodyItems := sound_bodyItems S
      statement := sound_statement S
      arrow := sound_arrow S
      blockOrAssignment := sound_blockOrAssignment S
      moreValues := sound_moreValues S
      control := sound_control S
      elseChain := sound_elseChain S
      directive := sound_directive S
      execArguments := sound_execArguments S
      moreExecArguments := sound_moreExecArguments S
      pipelineItems := sound_pipelineItems S }

/-- **Documents have the shape of the grammar.** What a document is read as consists of statements,
and every node of them fits and was named by tokens of the document. -/
theorem shaped_of_document (n : Nat) : ListRule D (document n) isStatement := by
  induction n with
  | zero =>
    intro c ns d _ h
    exact absurd h (not_gives_exhausted _ _ _)
  | succ n ih =>
    intro c ns d hc h
    rcases (gives_document _ _ _ _).1 h with ⟨-, rfl, rfl⟩ | ⟨-, first, e, others, hf, ho, rfl⟩
    · exact ⟨hc.skipSeparators, by simp, by simp⟩
    · obtain ⟨he, hs, hk⟩ := (sound n).statement hc.skipSeparators hf
      obtain ⟨hd, hss, hks⟩ := ih he ho
      exact ⟨hd, by simpa [hs] using hss, by simpa [hk] using hks⟩

end Rule

end BlockConfig
