import BlockConfig.Proofs.Grammar.Reading

/-!
Canonical expressions.

An expression of literals, names, calls, lists, groups, members and operators is canonical if no
operator in it has an operand that would have needed parentheses (`Node.Canonical`). The conditions
speak of a node and the nodes directly below it and are what one would ask of a printed expression:
the left operand of an operator binds at least as strongly as the operator, the right operand more
strongly, and a choice is never an operand or a condition.

These are the trees that are read back. Two directions connect them to the conditions of the grammar:
a canonical node never holds together less firmly at its end than at its front (`rank_le_grip`), so
canonical trees fit, and a tree of these kinds of nodes that fits is canonical.
-/

set_option autoImplicit false

namespace BlockConfig

namespace Node

/-! ## 1. Canonical trees -/

/-- Expressions whose own brackets or lack of parts hold them together. -/
def isPrimary : Node → Bool
  | literal _ | ident _ | list _ | group _ | call .. => true
  | _ => false

/-- Whether a node is a member of a value. -/
def isMember : Node → Bool
  | member .. => true
  | _ => false

/-- Whether a node is an operator in front of its operand. -/
def isUnary : Node → Bool
  | unary .. => true
  | _ => false

/-- Whether a node is a choice. -/
def isTernary : Node → Bool
  | ternary .. => true
  | _ => false

/-- No node directly below this one lacks parentheses. -/
def CanonicalHere : Node → Prop
  | literal _ | ident _ | list _ | group _ | call .. => True
  | member left _ => left.isMember = true ∨ left.isPrimary = true
  | unary _ operand => operand.isUnary = true ∨ operand.isMember = true ∨ operand.isPrimary = true
  | binary op left right =>
    (left.isTernary = false ∧ right.isTernary = false) ∧
      (∀ o l r, left = binary o l r → op.strength ≤ o.strength) ∧
      ∀ o l r, right = binary o l r → op.strength < o.strength
  | ternary condition _ _ => condition.isTernary = false
  | _ => False

/-- An expression without missing or doubtful parentheses. -/
def Canonical (n : Node) : Prop :=
  Everywhere CanonicalHere n

variable {n : Node}

theorem isValue_of_canonicalHere (h : n.CanonicalHere) : n.isValue = true := by
  cases n <;> first | rfl | exact absurd h id

theorem Canonical.isValue (h : n.Canonical) : n.isValue = true :=
  isValue_of_canonicalHere h.here

/-! ## 2. Canonical trees fit -/

theorem rank_of_isPrimary (h : n.isPrimary = true) : n.rank = 5 := by
  cases n <;> first | rfl | simp [isPrimary] at h

theorem rank_of_isMember (h : n.isMember = true) : n.rank = 5 := by
  cases n <;> first | rfl | simp [isMember] at h

theorem rank_of_isUnary (h : n.isUnary = true) : n.rank = 4 := by
  cases n <;> first | rfl | simp [isUnary] at h

/-- What is no choice and, as an operation, has a certain strength is of that rank. -/
theorem le_rank {k : Nat} (hk : k ≤ 4) (ht : n.isTernary = false)
    (hb : ∀ o l r, n = binary o l r → k ≤ o.strength) : k ≤ n.rank := by
  cases n with
  | ternary => exact absurd ht (by simp [isTernary])
  | binary op left right => exact hb op left right rfl
  | unary => exact hk
  | _ => exact Nat.le_succ_of_le hk

theorem four_le_rank
    (h : n.isUnary = true ∨ n.isMember = true ∨ n.isPrimary = true) : 4 ≤ n.rank := by
  rcases h with h | h | h
  · exact Nat.le_of_eq (rank_of_isUnary h).symm
  · simp [rank_of_isMember h]
  · simp [rank_of_isPrimary h]

theorem lt_rank_right {op : BinaryOp} {left right : Node}
    (h : (binary op left right).CanonicalHere) : op.strength < right.rank :=
  le_rank op.strength_lt h.1.2 h.2.2

/-- **Nothing behind a canonical node gets at its inside.** The right end of an operator holds together at
least as strongly as the operator, or it would be in parentheses. -/
theorem rank_le_grip (h : n.Canonical) : n.rank ≤ n.grip := by
  induction h with
  | @intro n here below ih =>
    cases n with
    | binary op left right =>
      have h1 := lt_rank_right here
      have h2 := ih right (by simp [children])
      simp only [rank, grip]
      omega
    | unary op operand =>
      have h1 := four_le_rank here
      have h2 := ih operand (by simp [children])
      simp only [rank, grip]
      omega
    | ternary condition yes no => exact Nat.zero_le _
    | inclusion target pos => exact absurd here id
    | _ => exact Nat.le_refl 5

/-- In a canonical tree each operand holds together as strongly as its place asks for, since it is in
parentheses otherwise. -/
theorem fitsHere_of_canonicalHere (h : n.CanonicalHere) (hb : ∀ m ∈ n.children, m.Canonical) :
    n.FitsHere := by
  have hv : ∀ m ∈ n.children, m.isValue = true := fun m hm => (hb m hm).isValue
  cases n with
  | literal v | ident name => trivial
  | list items | call name items pos => exact hv
  | group inner => exact hv inner (by simp [children])
  | member left name =>
    have hl : left.rank = 5 := h.elim rank_of_isMember rank_of_isPrimary
    exact ⟨hv left (by simp [children]), hl ▸ rank_le_grip (hb left (by simp [children]))⟩
  | unary op operand => exact ⟨hv operand (by simp [children]), four_le_rank h⟩
  | binary op left right =>
    have hl : op.strength ≤ left.rank := le_rank (Nat.le_of_lt op.strength_lt) h.1.1 h.2.1
    exact ⟨hv left (by simp [children]), hv right (by simp [children]),
      Nat.le_trans hl (rank_le_grip (hb left (by simp [children]))), lt_rank_right h⟩
  | ternary condition yes no =>
    have hc : 1 ≤ condition.rank := le_rank (by decide) h fun o _ _ _ => o.strength_pos
    exact ⟨hv condition (by simp [children]), hv yes (by simp [children]),
      hv no (by simp [children]), Nat.le_trans hc (rank_le_grip (hb condition (by simp [children])))⟩
  | _ => exact absurd h id

/-- **A canonical tree is read back.** Its operands hold together as strongly as their places ask for, and
statements, which need more than that, do not occur in it. -/
theorem Canonical.readable (h : n.Canonical) : n.Readable := by
  induction h with
  | @intro n here below ih =>
    refine .intro ⟨fitsHere_of_canonicalHere here below, ?_⟩ ih
    cases n <;> trivial

/-! ## 3. Trees that fit are canonical -/

/-- The kinds of node that canonical trees are built from. -/
def isOperation : Node → Bool
  | literal _ | ident _ | list _ | group _ | call .. | member .. | unary .. | binary ..
  | ternary .. => true
  | _ => false

/-- An operand that holds together more strongly than every binary operator and prefix is a member, or is
read as a whole to begin with. -/
theorem isPrimary_of_rank (hk : n.isOperation = true) (h : 5 ≤ n.rank) :
    n.isMember = true ∨ n.isPrimary = true := by
  cases n with
  | member => exact .inl rfl
  | binary op =>
    have : 5 ≤ op.strength := h
    have := op.strength_lt
    omega
  | unary | ternary => exact absurd h (by simp [rank])
  | literal | ident | list | group | call => exact .inr rfl
  | _ => exact absurd hk (by simp [isOperation])

/-- Conversely, where each operand holds together strongly enough, no parentheses are missing. -/
theorem canonicalHere_of_fitsHere (h : n.FitsHere) (hn : n.isOperation = true)
    (hk : ∀ m ∈ n.children, m.isOperation = true) : n.CanonicalHere := by
  cases n with
  | literal | ident | list | group | call => trivial
  | member left name =>
    exact isPrimary_of_rank (hk left (by simp [children])) (Nat.le_trans h.2 left.grip_le_rank)
  | unary op operand =>
    have hr : 4 ≤ operand.rank := h.2
    rcases Nat.lt_or_ge operand.rank 5 with h5 | h5
    · have : operand.rank = 4 := by omega
      refine .inl ?_
      cases operand with
      | unary => rfl
      | binary op =>
        have : op.strength = 4 := this
        have := op.strength_lt
        omega
      | _ => exact absurd this (by simp [rank])
    · exact .inr (isPrimary_of_rank (hk operand (by simp [children])) h5)
  | binary op left right =>
    obtain ⟨-, -, hl, hr⟩ := h
    have hlr := Nat.le_trans hl left.grip_le_rank
    have hp := op.strength_pos
    refine ⟨⟨?_, ?_⟩, ?_, ?_⟩
    · cases left <;> first | rfl | exact absurd hlr (by simp only [rank]; omega)
    · cases right <;> first | rfl | exact absurd hr (by simp only [rank]; omega)
    · rintro o l r rfl
      exact hlr
    · rintro o l r rfl
      exact hr
  | ternary condition yes no =>
    have hc := Nat.le_trans h.2.2.2 condition.grip_le_rank
    cases condition <;> first | rfl | exact absurd hc (by simp [rank])
  | _ => exact absurd hn (by simp [isOperation])

theorem canonical_of_fits (hf : Everywhere FitsHere n)
    (hk : Everywhere (fun n => n.isOperation = true) n) : n.Canonical := by
  induction hf with
  | intro here _ ih =>
    exact .intro (canonicalHere_of_fitsHere here hk.here fun m hm => (hk.child m hm).here)
      fun m hm => ih m hm (hk.child m hm)

end Node

end BlockConfig
