import BlockConfig.Proofs.Grammar.Canonical
import Mathlib.Data.List.Forall2

/-!
Operator precedence, seen from the tokens.

Expressions of numbers, quoted strings, truth values, names, operators, members, choices, lists,
calls and groups are read exactly. The tree holds the tokens that were read, in order and with
nothing added or left out but commas in front of a closing bracket (`Written`); it is canonical; and
no other canonical tree holds the same tokens (`expression_exact`).

What a tree holds is its list of glyphs (`Node.glyphs`), a function of the tree alone in which an
operator is just an operator, whether it was written as a symbol or as a word. That the glyphs come
out right is proved rule by rule and by induction on the budget. Canonicity is what the grammar
already guarantees about operands that stand beside operators. Uniqueness then needs no argument
about trees: a canonical tree is read back from its own glyphs, put on one line, and reading is a
function.
-/

set_option autoImplicit false

namespace BlockConfig

/-! ## 1. Glyphs -/

/-- What a token says in its place in an expression. -/
inductive Glyph where
  | literal (value : Literal)
  | word (name : String)
  | member (name : String)
  | binary (op : BinaryOp)
  | unary (op : UnaryOp)
  | mark (kind : Kind)

/-- A token says what a glyph stands for. -/
def Token.Reads (t : Token) : Glyph → Prop
  | .literal v => t.Means v
  | .word name => t.IsWord name ∧ name ≠ "null"
  | .member name => t.Names name
  | .binary op =>
    BinaryOp.ofKind? t.kind = some op ∨ (t.kind = .ident ∧ BinaryOp.ofWord? t.literal = some op)
  | .unary op => UnaryOp.ofKind? t.kind = some op
  | .mark kind => t.kind = kind

mutual

/-- The glyphs of an expression from left to right. -/
def Node.glyphs : Node → List Glyph
  | .literal v => [.literal v]
  | .ident name => [.word name]
  | .member left name => left.glyphs ++ [.mark .dot, .member name]
  | .binary op left right => left.glyphs ++ .binary op :: right.glyphs
  | .unary op operand => .unary op :: operand.glyphs
  | .ternary condition yes no =>
    condition.glyphs ++ .mark .question :: (yes.glyphs ++ .mark .colon :: no.glyphs)
  | .group inner => .mark .lparen :: (inner.glyphs ++ [.mark .rparen])
  | .call name args _ => .word name :: .mark .lparen :: (glyphsOfItems args ++ [.mark .rparen])
  | .list items => .mark .lbracket :: (glyphsOfItems items ++ [.mark .rbracket])
  | _ => []

/-- The glyphs of expressions with commas between them. -/
def glyphsOfItems : List Node → List Glyph
  | [] => []
  | [n] => n.glyphs
  | n :: ns => n.glyphs ++ .mark .comma :: glyphsOfItems ns

end

namespace Kind

/-- The tokens that expressions of this kind are written with. -/
def isExpressive (k : Kind) : Bool :=
  [.number, .str, .bool, .ident, .dot, .question, .colon, .comma, .lparen, .rparen, .lbracket,
    .rbracket].contains k || (BinaryOp.ofKind? k).isSome || (UnaryOp.ofKind? k).isSome

/-- The brackets that end calls, groups and lists. -/
def closes (k : Kind) : Bool :=
  k = .rparen || k = .rbracket

end Kind

/-- Tokens without the commas that stand directly before a closing bracket. -/
def withoutTrailingCommas : List Token → List Token
  | t :: u :: ts =>
    if t.kind = .comma ∧ u.kind.closes = true then withoutTrailingCommas (u :: ts)
    else t :: withoutTrailingCommas (u :: ts)
  | ts => ts

/-- Only commas are ever left out. -/
theorem withoutTrailingCommas_cons {t : Token} (ht : t.kind ≠ .comma) (ts : List Token) :
    withoutTrailingCommas (t :: ts) = t :: withoutTrailingCommas ts := by
  cases ts with
  | nil => rfl
  | cons u ts => simp [withoutTrailingCommas, ht]

/-- A comma stays if what follows it closes nothing. -/
theorem withoutTrailingCommas_comma {t u : Token} (hu : u.kind.closes = false) (ts : List Token) :
    withoutTrailingCommas (t :: u :: ts) = t :: withoutTrailingCommas (u :: ts) := by
  simp [withoutTrailingCommas, hu]

/-- Commas that trail do so within a piece of text that does not end in one. -/
theorem withoutTrailingCommas_append {a : List Token} (ha : ∀ x ∈ a.getLast?, x.kind ≠ .comma)
    (b : List Token) :
    withoutTrailingCommas (a ++ b) = withoutTrailingCommas a ++ withoutTrailingCommas b := by
  fun_induction withoutTrailingCommas a with
  | case1 t u ts h ih =>
    rw [List.cons_append, List.cons_append, withoutTrailingCommas, if_pos h]
    apply ih
    simpa [List.getLast?_cons_cons] using ha
  | case2 t u ts h ih =>
    rw [List.cons_append, List.cons_append, withoutTrailingCommas, if_neg h, List.cons_append]
    rw [← List.cons_append, ih (by simpa [List.getLast?_cons_cons] using ha)]
  | case3 ts hts =>
    match ts, hts with
    | [], _ => rfl
    | [t], _ => exact withoutTrailingCommas_cons (ha t rfl) b
    | t :: u :: ts, hts => exact absurd rfl (hts t u ts)

/-- Tokens that read as glyphs in sequence can be cut where the glyphs are. -/
theorem reads_append_iff {ts : List Token} {gs hs : List Glyph} :
    List.Forall₂ Token.Reads ts (gs ++ hs) ↔
      ∃ a b, ts = a ++ b ∧ List.Forall₂ Token.Reads a gs ∧ List.Forall₂ Token.Reads b hs := by
  constructor
  · intro h
    refine ⟨ts.take gs.length, ts.drop gs.length, (List.take_append_drop _ _).symm, ?_, ?_⟩
    · exact List.forall₂_take_append ts gs hs h
    · exact List.forall₂_drop_append ts gs hs h
  · rintro ⟨a, b, rfl, ha, hb⟩
    exact List.rel_append ha hb

theorem reads_cons_iff {ts : List Token} {g : Glyph} {gs : List Glyph} :
    List.Forall₂ Token.Reads ts (g :: gs) ↔
      ∃ t a, ts = t :: a ∧ t.Reads g ∧ List.Forall₂ Token.Reads a gs := by
  rw [List.forall₂_cons_right_iff]
  constructor
  · rintro ⟨t, a, ht, ha, rfl⟩
    exact ⟨t, a, rfl, ht, ha⟩
  · rintro ⟨t, a, rfl, ht, ha⟩
    exact ⟨t, a, ht, ha, rfl⟩

theorem reads_singleton_iff {ts : List Token} {g : Glyph} :
    List.Forall₂ Token.Reads ts [g] ↔ ∃ t, ts = [t] ∧ t.Reads g := by
  rw [reads_cons_iff]
  constructor
  · rintro ⟨t, a, rfl, ht, ha⟩
    rw [List.forall₂_nil_right_iff.1 ha]
    exact ⟨t, rfl, ht⟩
  · rintro ⟨t, rfl, ht⟩
    exact ⟨t, [], rfl, ht, .nil⟩

/-! ## 2. What was written -/

/-- A tree and the tokens that it was read from. -/
structure Written (a : List Token) (n : Node) : Prop where
  kinds : Node.Everywhere (fun n => n.isOperation = true) n
  glyphs : List.Forall₂ Token.Reads (withoutTrailingCommas a) n.glyphs
  first : ∃ t ts, a = t :: ts ∧ t.kind.closes = false
  last : ∀ x ∈ a.getLast?, x.kind ≠ .comma

/-- Expressions with commas between them, and the tokens that they and the bracket behind them were
read from. -/
structure WrittenItems (close : Kind) (a : List Token) (ns : List Node) : Prop where
  kinds : ∀ m ∈ ns, Node.Everywhere (fun n => n.isOperation = true) m
  glyphs : List.Forall₂ Token.Reads (withoutTrailingCommas a) (glyphsOfItems ns ++ [.mark close])
  first : ∃ t ts, a = t :: ts ∧ t.kind.closes = ns.isEmpty
  last : ∀ x ∈ a.getLast?, x.kind = close

section Written

variable {a b : List Token} {t : Token}

/-- An expression does not end in a comma, so nothing at its end is left out when something is put behind
it. -/
theorem Written.last_append {n : Node} (h : Written b n) (a : List Token) :
    ∀ x ∈ (a ++ b).getLast?, x.kind ≠ .comma := by
  have hl := h.last
  obtain ⟨t, ts, rfl, -⟩ := h.first
  rw [List.getLast?_append, List.getLast?_cons]
  rw [List.getLast?_cons] at hl
  exact hl

/-- A node without nodes below it, read from one token. -/
theorem written_token {n : Node} {g : Glyph} (hk : n.isOperation = true) (hn : n.children = [])
    (hg : n.glyphs = [g]) (ht : t.Reads g) (hc : t.kind.closes = false) (hl : t.kind ≠ .comma) :
    Written [t] n where
  kinds := .intro hk fun m hm => by simp [hn] at hm
  glyphs := by
    rw [hg]
    exact .cons ht .nil
  first := ⟨t, [], rfl, hc⟩
  last := by simpa using hl

/-- A member is written as its left side, a dot and the name. Here and below, what is written reads as the
glyphs of the tree once trailing commas are left out, and the tree is one of operations. -/
theorem written_member {left : Node} {name : String} {dot : Token} (h : Written a left)
    (hd : dot.kind = .dot) (ht : t.Names name) : Written (a ++ [dot, t]) (.member left name) where
  kinds := .intro rfl fun m hm => by
    rw [List.mem_singleton.1 hm]
    exact h.kinds
  glyphs := by
    rw [withoutTrailingCommas_append h.last, withoutTrailingCommas_cons (by simp [hd])]
    exact List.rel_append h.glyphs (.cons hd (.cons ht .nil))
  first := by
    obtain ⟨x, xs, rfl, hx⟩ := h.first
    exact ⟨x, _, rfl, hx⟩
  last := by
    have hn := ht.1
    intro x hx hc
    obtain rfl : t = x := by simpa using hx
    simp [Token.isName, hc] at hn

/-- An operation is written as its operands with the operator between them. -/
theorem written_binary {op : BinaryOp} {left right : Node} (hl : Written a left)
    (ht : t.Reads (.binary op)) (hc : t.kind ≠ .comma) (hr : Written b right) :
    Written (a ++ t :: b) (.binary op left right) where
  kinds := .intro rfl fun m hm => by
    rcases List.mem_pair.1 hm with rfl | rfl
    · exact hl.kinds
    · exact hr.kinds
  glyphs := by
    rw [withoutTrailingCommas_append hl.last, withoutTrailingCommas_cons hc]
    exact List.rel_append hl.glyphs (.cons ht hr.glyphs)
  first := by
    obtain ⟨x, xs, rfl, hx⟩ := hl.first
    exact ⟨x, _, rfl, hx⟩
  last := by
    have h := hr.last_append (a ++ [t])
    rwa [List.append_assoc] at h

/-- A prefix operation is written as its operator and then its operand. -/
theorem written_unary {op : UnaryOp} {operand : Node} (ht : t.Reads (.unary op))
    (hc : t.kind ≠ .comma ∧ t.kind.closes = false) (h : Written a operand) :
    Written (t :: a) (.unary op operand) where
  kinds := .intro rfl fun m hm => by
    rw [List.mem_singleton.1 hm]
    exact h.kinds
  glyphs := by
    rw [withoutTrailingCommas_cons hc.1]
    exact .cons ht h.glyphs
  first := ⟨t, a, rfl, hc.2⟩
  last := h.last_append [t]

/-- A choice is written as condition, mark, value, colon, value. -/
theorem written_ternary {condition yes no : Node} {q colon : Token} {d : List Token}
    (hc : Written a condition) (hq : q.kind = .question) (hy : Written b yes)
    (hcolon : colon.kind = .colon) (hn : Written d no) :
    Written (a ++ q :: (b ++ colon :: d)) (.ternary condition yes no) where
  kinds := .intro rfl fun m hm => by
    simp only [Node.children, List.mem_cons, List.not_mem_nil, or_false] at hm
    rcases hm with rfl | rfl | rfl
    · exact hc.kinds
    · exact hy.kinds
    · exact hn.kinds
  glyphs := by
    rw [withoutTrailingCommas_append hc.last, withoutTrailingCommas_cons (by simp [hq]),
      withoutTrailingCommas_append hy.last, withoutTrailingCommas_cons (by simp [hcolon])]
    exact List.rel_append hc.glyphs (.cons hq (List.rel_append hy.glyphs (.cons hcolon hn.glyphs)))
  first := by
    obtain ⟨x, xs, rfl, hx⟩ := hc.first
    exact ⟨x, _, rfl, hx⟩
  last := by
    have h := hn.last_append (a ++ q :: (b ++ [colon]))
    rwa [List.append_assoc, List.cons_append, List.append_assoc] at h

/-- A group is written as what is in it, in parentheses. -/
theorem written_group {inner : Node} {l r : Token} (hl : l.kind = .lparen) (h : Written a inner)
    (hr : r.kind = .rparen) : Written (l :: (a ++ [r])) (.group inner) where
  kinds := .intro rfl fun m hm => by
    rw [List.mem_singleton.1 hm]
    exact h.kinds
  glyphs := by
    rw [withoutTrailingCommas_cons (by simp [hl]), withoutTrailingCommas_append h.last]
    exact .cons hl (List.rel_append h.glyphs (.cons hr .nil))
  first := ⟨l, _, rfl, by rw [hl]; rfl⟩
  last := by
    rw [← List.cons_append, List.getLast?_concat]
    simp [hr]

/-- No items are written as the closing token alone. -/
theorem writtenItems_nil {close : Kind} (hc : close.closes = true) (ht : t.kind = close) :
    WrittenItems close [t] [] where
  kinds := by simp
  glyphs := .cons ht .nil
  first := ⟨t, [], rfl, by rw [ht]; exact hc⟩
  last := by simpa using ht

/-- The last item is written in front of the closing token; a comma may stand between the two, and is left
out. -/
theorem writtenItems_last {close : Kind} {n : Node} (h : Written a n) (ht : t.kind = close) :
    WrittenItems close (a ++ [t]) [n] where
  kinds := by simpa using h.kinds
  glyphs := by
    rw [withoutTrailingCommas_append h.last]
    exact List.rel_append h.glyphs (.cons ht .nil)
  first := by
    obtain ⟨x, xs, rfl, hx⟩ := h.first
    exact ⟨x, _, rfl, hx⟩
  last := by simpa using ht

/-- An item in front of others is written with a comma behind it. Whether that comma is a trailing one
depends on what follows: it is, when no item does. -/
theorem writtenItems_cons {close : Kind} {n : Node} {ns : List Node} (h : Written a n)
    (ht : t.kind = .comma) (hs : WrittenItems close b ns) :
    WrittenItems close (a ++ t :: b) (n :: ns) where
  kinds := by
    intro m hm
    rcases List.mem_cons.1 hm with rfl | hm
    · exact h.kinds
    · exact hs.kinds m hm
  glyphs := by
    have hg := hs.glyphs
    obtain ⟨x, xs, rfl, hx⟩ := hs.first
    rw [withoutTrailingCommas_append h.last]
    cases ns with
    | nil =>
      -- The comma trails.
      rw [withoutTrailingCommas, if_pos ⟨ht, hx⟩]
      exact List.rel_append h.glyphs hg
    | cons m ns =>
      rw [withoutTrailingCommas_comma hx, glyphsOfItems.eq_3 _ _ (by simp), List.append_assoc]
      exact List.rel_append h.glyphs (.cons ht hg)
  first := by
    obtain ⟨x, xs, rfl, hx⟩ := h.first
    exact ⟨x, _, rfl, hx⟩
  last := by
    obtain ⟨x, xs, rfl, -⟩ := hs.first
    simpa [List.getLast?_append, List.getLast?_cons_cons] using hs.last

/-- A list is written as its bracket and then its items. -/
theorem written_list {items : List Node} {l : Token} (hl : l.kind = .lbracket)
    (h : WrittenItems .rbracket a items) : Written (l :: a) (.list items) where
  kinds := .intro rfl h.kinds
  glyphs := by
    rw [withoutTrailingCommas_cons (by simp [hl])]
    exact .cons hl h.glyphs
  first := ⟨l, a, rfl, by rw [hl]; rfl⟩
  last := by
    have hlast := h.last
    obtain ⟨x, xs, rfl, -⟩ := h.first
    intro y hy
    rw [hlast y (by simpa [List.getLast?_cons_cons] using hy)]
    decide

/-- A call is written as its name, its bracket and then its arguments. -/
theorem written_call {name : String} {args : List Node} {pos : Position} {l : Token}
    (ht : t.Reads (.word name)) (hl : l.kind = .lparen) (h : WrittenItems .rparen a args) :
    Written (t :: l :: a) (.call name args pos) where
  kinds := .intro rfl h.kinds
  glyphs := by
    rw [withoutTrailingCommas_cons (by simp [ht.1.1]), withoutTrailingCommas_cons (by simp [hl])]
    exact .cons ht (.cons hl h.glyphs)
  first := ⟨t, _, rfl, by rw [ht.1.1]; rfl⟩
  last := by
    have hlast := h.last
    obtain ⟨x, xs, rfl, -⟩ := h.first
    intro y hy
    rw [hlast y (by simpa [List.getLast?_cons_cons] using hy)]
    decide

end Written

/-! ## 3. Every rule for expressions -/

namespace Rule

/-- A token of an expression, or the end of input. -/
def Expressive (t : Token) : Prop :=
  t.kind.isExpressive = true ∨ t.kind = .eof

/-- Between two cursors stand the tokens `a`. -/
def Takes (c : Cursor) (a : List Token) (d : Cursor) : Prop :=
  c.rest = a ++ d.rest ∧ d.Holds Expressive

/-- What is taken in two steps is taken at once. -/
theorem Takes.trans {c d e : Cursor} {a b : List Token} (h : Takes c a d) (h' : Takes d b e) :
    Takes c (a ++ b) e := by
  refine ⟨?_, h'.2⟩
  rw [h.1, h'.1, List.append_assoc]

/-- The token that is passed is taken first. -/
theorem Takes.cons {c e : Cursor} {t : Token} {b : List Token} (h : Takes c [t] c.skip)
    (h' : Takes c.skip b e) : Takes c (t :: b) e :=
  h.trans h'

/-- A token that is not the end of input can be taken. -/
theorem takes_token {c : Cursor} (hc : c.Holds Expressive) (ht : (c.peekAt 0).kind ≠ .eof) :
    Takes c [c.peekAt 0] c.skip := by
  obtain ⟨line, ts⟩ := c
  match ts, hc with
  | [], hc => exact absurd rfl hc.ne_nil
  | [t], hc =>
    obtain ⟨⟨u, hu, hk⟩, -⟩ := hc
    obtain rfl : t = u := by simpa using hu
    exact absurd hk ht
  | t :: u :: ts, hc => exact ⟨rfl, hc.skip⟩

/-- Among the tokens of an expression there is no comment to be passed. -/
theorem skipComments_of_expressive {c : Cursor} (hc : c.Holds Expressive) : c.skipComments = c := by
  obtain ⟨line, ts⟩ := c
  cases ts with
  | nil => rfl
  | cons t ts =>
    have ht : Expressive t := hc.2 t (by simp)
    apply Cursor.skipComments_of_not
    intro hk
    rcases ht with ht | ht
    · rw [hk] at ht
      exact absurd ht (by decide)
    · rw [hk] at ht
      exact absurd ht (by decide)

/-- An operator that was found is written as one, be it a sign or a word. -/
theorem reads_of_operator? {c : Cursor} {op : BinaryOp} (h : c.operator? = some op) :
    (c.peekAt 0).Reads (.binary op) ∧ (c.peekAt 0).kind ≠ .comma ∧ (c.peekAt 0).kind ≠ .eof := by
  unfold Cursor.operator? at h
  split at h
  next hk =>
    split at h
    · refine ⟨.inr ⟨hk, h⟩, ?_, ?_⟩ <;> rw [hk] <;> decide
    · exact absurd h (by simp)
  next hk =>
    refine ⟨.inl h, ?_, ?_⟩
    · intro hk
      simp [hk, BinaryOp.ofKind?] at h
    · intro hk
      simp [hk, BinaryOp.ofKind?] at h

/-- What the rules for expressions with budget `n` take. -/
structure Exact (n : Nat) : Prop where
  expression : ∀ {c : Cursor} {t : Node} {d : Cursor}, c.Holds Expressive →
    (expression n).Gives c t d → ∃ a, Takes c a d ∧ Written a t
  binary : ∀ {least : Nat} {c : Cursor} {t : Node} {d : Cursor}, c.Holds Expressive →
    (binary n least).Gives c t d → ∃ a, Takes c a d ∧ Written a t
  climb : ∀ {least : Nat} {left : Node} {a : List Token} {c : Cursor} {t : Node} {d : Cursor},
    Written a left → c.Holds Expressive → (climb n least left).Gives c t d →
    ∃ b, Takes c b d ∧ Written (a ++ b) t
  unary : ∀ {c : Cursor} {t : Node} {d : Cursor}, c.Holds Expressive →
    (unary n).Gives c t d → ∃ a, Takes c a d ∧ Written a t
  members : ∀ {left : Node} {a : List Token} {c : Cursor} {t : Node} {d : Cursor},
    Written a left → c.Holds Expressive → (members n left).Gives c t d →
    ∃ b, Takes c b d ∧ Written (a ++ b) t
  primary : ∀ {c : Cursor} {t : Node} {d : Cursor}, c.Holds Expressive →
    (primary n).Gives c t d → ∃ a, Takes c a d ∧ Written a t
  items : ∀ {close : Kind} {context : String} {c : Cursor} {ns : List Node} {d : Cursor},
    close.closes = true → c.Holds Expressive → (items n close context).Gives c ns d →
    ∃ a, Takes c a d ∧ WrittenItems close a ns

theorem exact_zero : Exact 0 := by
  constructor <;> repeat intro
  all_goals
    rename_i h
    exact absurd h (not_gives_exhausted _ _ _)

section Exact

variable {n : Nat} (E : Exact n) {c : Cursor} {t : Node} {d : Cursor} (hc : c.Holds Expressive)
include E hc

/-- An expression takes exactly the tokens it is written with: those of its condition, or those of the three
parts of a choice. -/
theorem exact_expression (h : (expression (n + 1)).Gives c t d) : ∃ a, Takes c a d ∧ Written a t := by
  obtain ⟨condition, e, hb, h⟩ := (gives_expression _ _ _ _).1 h
  obtain ⟨a, ha, hw⟩ := E.binary hc hb
  rcases h with ⟨-, rfl, rfl⟩ | ⟨hq, yes, e₁, no, hy, hcolon, hn, rfl⟩
  · exact ⟨a, ha, hw⟩
  · have htq := takes_token ha.2 (by rw [hq]; decide)
    obtain ⟨b, hb, hwb⟩ := E.expression htq.2 hy
    have htc := takes_token hb.2 (by rw [hcolon]; decide)
    obtain ⟨b', hb', hwb'⟩ := E.expression htc.2 hn
    exact ⟨_, ha.trans (htq.cons (hb.trans (htc.cons hb'))), written_ternary hw hq hwb hcolon hwb'⟩

/-- The tokens of the first operand, then those that the loop takes. -/
theorem exact_binary {least : Nat} (h : (binary (n + 1) least).Gives c t d) :
    ∃ a, Takes c a d ∧ Written a t := by
  obtain ⟨left, e, hu, hl⟩ := (gives_binary _ _ _ _ _).1 h
  obtain ⟨a, ha, hw⟩ := E.unary hc hu
  obtain ⟨b, hb, hw⟩ := E.climb hw ha.2 hl
  exact ⟨a ++ b, ha.trans hb, hw⟩

/-- The loop over operators: what is taken in it goes behind what the left operand is written with. -/
theorem exact_climb {least : Nat} {left : Node} {a : List Token} (hw : Written a left)
    (h : (climb (n + 1) least left).Gives c t d) : ∃ b, Takes c b d ∧ Written (a ++ b) t := by
  rcases (gives_climb _ _ _ _ _ _).1 h with ⟨-, rfl, rfl⟩ | ⟨op, right, e, ho, -, hr, hl⟩
  · exact ⟨[], ⟨rfl, hc⟩, by rwa [List.append_nil]⟩
  · obtain ⟨ht, hcomma, heof⟩ := reads_of_operator? ho
    have hto := takes_token hc heof
    obtain ⟨b, hb, hwr⟩ := E.binary hto.2 hr
    obtain ⟨b', hb', hwt⟩ := E.climb (written_binary hw ht hcomma hwr) hb.2 hl
    refine ⟨_, hto.cons (hb.trans hb'), ?_⟩
    simpa using hwt

/-- A prefix operator is one token; an operand is what it is with its members. -/
theorem exact_unary (h : (unary (n + 1)).Gives c t d) : ∃ a, Takes c a d ∧ Written a t := by
  rcases (gives_unary _ _ _ _).1 h with ⟨op, operand, ho, hu, rfl⟩ | ⟨-, left, e, hp, hm⟩
  · have hk : (c.peekAt 0).kind ≠ .comma ∧ (c.peekAt 0).kind.closes = false ∧
        (c.peekAt 0).kind ≠ .eof := by
      have ho : UnaryOp.ofKind? (c.peekAt 0).kind ≠ none := by simp [ho]
      revert ho
      cases (c.peekAt 0).kind <;> decide
    have hto := takes_token hc hk.2.2
    obtain ⟨a, ha, hw⟩ := E.unary hto.2 hu
    exact ⟨_, hto.cons ha, written_unary ho ⟨hk.1, hk.2.1⟩ hw⟩
  · obtain ⟨a, ha, hw⟩ := E.primary hc hp
    obtain ⟨b, hb, hw⟩ := E.members hw ha.2 hm
    exact ⟨a ++ b, ha.trans hb, hw⟩

/-- The loop over members takes a dot and a name in each turn. -/
theorem exact_members {left : Node} {a : List Token} (hw : Written a left)
    (h : (members (n + 1) left).Gives c t d) : ∃ b, Takes c b d ∧ Written (a ++ b) t := by
  rcases (gives_members _ _ _ _ _).1 h with ⟨-, rfl, rfl⟩ | ⟨hd, hn, hm⟩
  · exact ⟨[], ⟨rfl, hc⟩, by rwa [List.append_nil]⟩
  · have htd := takes_token hc (by rw [hd]; decide)
    have htn := takes_token htd.2 (by
      intro hk
      simp [Token.isName, hk] at hn)
    obtain ⟨b, hb, hwt⟩ := E.members (written_member hw hd ⟨hn, rfl⟩) htn.2 hm
    refine ⟨_, htd.cons (htn.cons hb), ?_⟩
    simpa using hwt

/-- An operand is written with its own tokens. The tokens of an expression begin no heredoc, no reference,
no map and no directive, so the cases that are left are single tokens, groups, lists and calls. -/
theorem exact_primary (h : (primary (n + 1)).Gives c t d) : ∃ a, Takes c a d ∧ Written a t := by
  have hexp : Expressive (c.peekAt 0) := hc.peekAt 0
  cases (gives_primary _ _ _ _).1 h with
  | number hk hv =>
    have ht := takes_token hc (by rw [hk]; decide)
    exact ⟨_, ht, written_token rfl rfl rfl (.inl ⟨hk, hv⟩) (by rw [hk]; rfl) (by rw [hk]; decide)⟩
  | str hk =>
    have ht := takes_token hc (by rw [hk]; decide)
    exact ⟨_, ht, written_token rfl rfl rfl (.inr (.inl ⟨hk, rfl⟩)) (by rw [hk]; rfl)
      (by rw [hk]; decide)⟩
  | bool hk =>
    have ht := takes_token hc (by rw [hk]; decide)
    exact ⟨_, ht, written_token rfl rfl rfl (.inr (.inr (.inr (.inl ⟨hk, rfl⟩)))) (by rw [hk]; rfl)
      (by rw [hk]; decide)⟩
  | null hk hn =>
    have ht := takes_token hc (by rw [hk]; decide)
    exact ⟨_, ht, written_token rfl rfl rfl (.inr (.inr (.inr (.inr ⟨hk, hn, rfl⟩))))
      (by rw [hk]; rfl) (by rw [hk]; decide)⟩
  | ident hk hn =>
    have ht := takes_token hc (by rw [hk]; decide)
    exact ⟨_, ht, written_token rfl rfl rfl ⟨⟨hk, rfl⟩, hn⟩ (by rw [hk]; rfl) (by rw [hk]; decide)⟩
  | call hk hn hp _ ha =>
    have ht := takes_token hc (by rw [hk]; decide)
    have htp := takes_token ht.2 (by rw [hp]; decide)
    obtain ⟨a, hta, hw⟩ := E.items rfl htp.2 ha
    exact ⟨_, ht.cons (htp.cons hta), written_call ⟨⟨hk, rfl⟩, hn⟩ hp hw⟩
  | group hk hi hp =>
    have ht := takes_token hc (by rw [hk]; decide)
    obtain ⟨a, hta, hw⟩ := E.expression ht.2 hi
    have htp := takes_token hta.2 (by rw [hp]; decide)
    exact ⟨_, ht.cons (hta.trans htp), written_group hk hw hp⟩
  | list hk hi =>
    have ht := takes_token hc (by rw [hk]; decide)
    obtain ⟨a, hta, hw⟩ := E.items rfl ht.2 hi
    exact ⟨_, ht.cons hta, written_list hk hw⟩
  | heredoc hk | envRef hk | entries hk | directive hk =>
    -- No expression of this kind has such a token.
    rw [Expressive, hk] at hexp
    exact absurd hexp (by decide)

/-- Items take their own tokens, the commas between them and the token that closes them. -/
theorem exact_items {close : Kind} {context : String} {ns : List Node} (hclose : close.closes = true)
    (h : (items (n + 1) close context).Gives c ns d) : ∃ a, Takes c a d ∧ WrittenItems close a ns := by
  have heof : ∀ {k : Kind}, k = close → k ≠ .eof := by
    rintro k rfl rfl
    exact absurd hclose (by decide)
  have h := (gives_items _ _ _ _ _ _).1 h
  rw [skipComments_of_expressive hc] at h
  rcases h with ⟨hk, rfl, rfl⟩ | ⟨-, item, e, hi, h⟩
  · exact ⟨_, takes_token hc (heof hk), writtenItems_nil hclose hk⟩
  · obtain ⟨a, ha, hw⟩ := E.expression hc hi
    rw [skipComments_of_expressive ha.2] at h
    rcases h with ⟨hcomma, others, ho, rfl⟩ | ⟨-, hk, rfl, rfl⟩
    · have ht := takes_token ha.2 (by rw [hcomma]; decide)
      obtain ⟨b, hb, hws⟩ := E.items hclose ht.2 ho
      exact ⟨_, ha.trans (ht.cons hb), writtenItems_cons hw hcomma hws⟩
    · exact ⟨_, ha.trans (takes_token ha.2 (heof hk)), writtenItems_last hw hk⟩

end Exact

/-- **The rules for expressions take what the tree was written with.** By induction on the budget, for all
rules at once; each of them puts the glyphs of its parts together as its tree does. -/
theorem exact (n : Nat) : Exact n := by
  induction n with
  | zero => exact exact_zero
  | succ n E => exact {
      expression := exact_expression E
      binary := fun hc h => exact_binary E hc h
      climb := fun hw hc h => exact_climb E hc hw h
      unary := exact_unary E
      members := fun hw hc h => exact_members E hc hw h
      primary := exact_primary E
      items := fun hclose hc h => exact_items E hc hclose h }

end Rule

/-! ## 4. One tree for the tokens -/

namespace Node

variable {near : Token → Token → Prop}

/-- Items that read as they should are spelled as items: the tokens can be cut wherever the glyphs can. -/
theorem spellsItems_of_reads {close : Kind} {ns : List Node} {ts : List Token}
    (ih : ∀ m ∈ ns, ∀ a : List Token, (∀ x ∈ a, x ∈ ts) →
      List.Forall₂ Token.Reads a m.glyphs → m.Spells near a)
    (h : List.Forall₂ Token.Reads ts (glyphsOfItems ns ++ [.mark close])) :
    SpellsItems near close ns ts := by
  induction ns generalizing ts with
  | nil =>
    obtain ⟨r, rfl, hr⟩ := reads_singleton_iff.1 h
    exact ⟨r, rfl, hr⟩
  | cons n ns ihs =>
    cases ns with
    | nil =>
      obtain ⟨a, _, rfl, ha, hb⟩ := reads_append_iff.1 h
      obtain ⟨r, rfl, hr⟩ := reads_singleton_iff.1 hb
      exact ⟨a, r, [], rfl, ih n (by simp) a (fun x hx => by simp [hx]) ha, .inr ⟨hr, rfl, rfl⟩⟩
    | cons m ns =>
      rw [glyphsOfItems.eq_3 _ _ (by simp), List.append_assoc] at h
      obtain ⟨a, _, rfl, ha, hb⟩ := reads_append_iff.1 h
      obtain ⟨comma, b, rfl, hcomma, hb⟩ := reads_cons_iff.1 hb
      refine ⟨a, comma, b, rfl, ih n (by simp) a (fun x hx => by simp [hx]) ha, .inl ⟨hcomma, ?_⟩⟩
      refine ihs (fun k hk a ha => ?_) hb
      exact ih k (List.mem_cons_of_mem n hk) a fun x hx => by simp [ha x hx]

/-- An expression is spelled by tokens near each other that say its glyphs. -/
theorem spells_of_reads {n : Node} (hn : n.Canonical) {ts : List Token}
    (hnear : ∀ x ∈ ts, ∀ y ∈ ts, near x y) (h : List.Forall₂ Token.Reads ts n.glyphs) :
    n.Spells near ts := by
  induction hn generalizing ts with
  | @intro n here _ ih =>
    -- Lists and calls end in the same way: the values with commas between them and a bracket.
    have items : ∀ (close : Kind) (a : List Token), (∀ x ∈ a, x ∈ ts) →
        List.Forall₂ Token.Reads a (glyphsOfItems n.children ++ [.mark close]) →
        SpellsItems near close n.children a := by
      intro close a ha hg
      refine spellsItems_of_reads (fun m hm b hb => ?_) hg
      exact ih m hm fun x hx y hy => hnear x (ha x (hb x hx)) y (ha y (hb y hy))
    cases n with
    | literal v =>
      obtain ⟨t, rfl, ht⟩ := reads_singleton_iff.1 h
      exact ⟨t, rfl, ht⟩
    | ident name =>
      obtain ⟨t, rfl, ht⟩ := reads_singleton_iff.1 h
      exact ⟨t, rfl, ht.1, ht.2⟩
    | member left name =>
      obtain ⟨a, _, rfl, ha, hb⟩ := reads_append_iff.1 h
      obtain ⟨dot, _, rfl, hd, hb⟩ := reads_cons_iff.1 hb
      obtain ⟨t, rfl, ht⟩ := reads_singleton_iff.1 hb
      have hleft : left.Spells near a :=
        ih left (by simp [children]) (fun x hx y hy => hnear x (by simp [hx]) y (by simp [hy])) ha
      exact ⟨a, dot, t, rfl, hleft, hd, ht⟩
    | binary op left right =>
      obtain ⟨a, _, rfl, ha, hb⟩ := reads_append_iff.1 h
      obtain ⟨t, b, rfl, ht, hb⟩ := reads_cons_iff.1 hb
      have hleft : left.Spells near a :=
        ih left (by simp [children]) (fun x hx y hy => hnear x (by simp [hx]) y (by simp [hy])) ha
      have hright : right.Spells near b :=
        ih right (by simp [children]) (fun x hx y hy => hnear x (by simp [hx]) y (by simp [hy])) hb
      -- ⟨ht.1, ht.2, fun x hx => ?_⟩, hright⟩ => An operator that is a word has to be near the last
      -- token of its left operand.
      refine ⟨a, t, b, rfl, hleft, ht.imp id fun ht => ⟨ht.1, ht.2, fun x hx => ?_⟩, hright⟩
      exact hnear x (by simp [List.mem_of_getLast? hx]) t (by simp)
    | unary op operand =>
      obtain ⟨t, a, rfl, ht, ha⟩ := reads_cons_iff.1 h
      have hoperand : operand.Spells near a :=
        ih operand (by simp [children]) (fun x hx y hy => hnear x (by simp [hx]) y (by simp [hy])) ha
      exact ⟨t, a, rfl, ht, hoperand⟩
    | ternary condition yes no =>
      obtain ⟨a, _, rfl, ha, hrest⟩ := reads_append_iff.1 h
      obtain ⟨q, _, rfl, hq, hrest⟩ := reads_cons_iff.1 hrest
      obtain ⟨b, _, rfl, hb, hrest⟩ := reads_append_iff.1 hrest
      obtain ⟨colon, d, rfl, hcolon, hd⟩ := reads_cons_iff.1 hrest
      have hc : condition.Spells near a :=
        ih _ (by simp [children]) (fun x hx y hy => hnear x (by simp [hx]) y (by simp [hy])) ha
      have hyes : yes.Spells near b :=
        ih _ (by simp [children]) (fun x hx y hy => hnear x (by simp [hx]) y (by simp [hy])) hb
      have hno : no.Spells near d :=
        ih _ (by simp [children]) (fun x hx y hy => hnear x (by simp [hx]) y (by simp [hy])) hd
      exact ⟨a, q, b, colon, d, rfl, hc, hq, hyes, hcolon, hno⟩
    | group inner =>
      obtain ⟨l, _, rfl, hl, hb⟩ := reads_cons_iff.1 h
      obtain ⟨a, _, rfl, ha, hb⟩ := reads_append_iff.1 hb
      obtain ⟨r, rfl, hr⟩ := reads_singleton_iff.1 hb
      have hinner : inner.Spells near a :=
        ih _ (by simp [children]) (fun x hx y hy => hnear x (by simp [hx]) y (by simp [hy])) ha
      exact ⟨l, a, r, rfl, hl, hinner, hr⟩
    | list elements =>
      obtain ⟨l, a, rfl, hl, ha⟩ := reads_cons_iff.1 h
      exact ⟨l, a, rfl, hl, items .rbracket a (fun x hx => by simp [hx]) ha⟩
    | call name args pos =>
      obtain ⟨t, _, rfl, ht, hb⟩ := reads_cons_iff.1 h
      obtain ⟨l, a, rfl, hl, ha⟩ := reads_cons_iff.1 hb
      exact ⟨t, l, a, rfl, ht.1, ht.2, hl, hnear t (by simp) l (by simp),
        items .rparen a (fun x hx => by simp [hx]) ha⟩
    | _ => exact absurd here id

/-- **Canonical trees with the same tokens are the same,** up to positions. With all tokens on one line each
of the two trees is what the rule for expressions reads, and it reads one tree. -/
theorem unplaced_eq_of_reads {n m : Node} (hn : n.Canonical) (hm : m.Canonical) {ts : List Token}
    (h : List.Forall₂ Token.Reads ts n.glyphs) (h' : List.Forall₂ Token.Reads ts m.glyphs) :
    n.unplaced = m.unplaced := by
  -- On one line, both trees are what the rule for expressions reads the tokens as.
  have line : ∀ {k : Node}, k.Canonical → List.Forall₂ Token.Reads ts k.glyphs →
      k.Spells Token.SameLine (ts.map fun t => { t with pos := .start }) := by
    intro k hk hg
    refine spells_of_reads hk ?_ (List.forall₂_map_left_iff.2 (hg.imp fun t g ht => ?_))
    · intro x hx y hy
      obtain ⟨_, -, rfl⟩ := List.mem_map.1 hx
      obtain ⟨_, -, rfl⟩ := List.mem_map.1 hy
      rfl
    · cases g <;> exact ht
  obtain ⟨n', hn', hg⟩ := reads_loneExpression hn.isValue hn.readable 0 (.endOfInput .start)
    (line hn h) rfl (Nat.le_refl _)
  obtain ⟨m', hm', hg'⟩ := reads_loneExpression hm.isValue hm.readable 0 (.endOfInput .start)
    (line hm h') rfl (Nat.le_refl _)
  have he : n' = m' := (Prod.mk.inj (Except.ok.inj (hg.symm.trans hg'))).1
  rw [← hn', ← hm', he]

end Node

/-! ## 5. Expressions are read exactly -/

/-- **Precedence climbing is exact.** In a list of such tokens that ends with the end of input, let
the rule for expressions start at place `p`. If it succeeds, it stops at a place `q` behind it; the
tree that it gives says exactly the tokens between the two, commas before closing brackets aside; it
is canonical; and every canonical tree that says these tokens is the same up to positions. -/
theorem expression_exact {ts : List Token} (hts : ∀ t ∈ ts, t.kind.isExpressive = true)
    {eof : Token} (heof : eof.kind = .eof) {p : Nat} (hp : p ≤ ts.length) {budget line : Nat}
    {n : Node} {d : Cursor}
    (h : (Rule.expression budget).Gives ⟨line, (ts ++ [eof]).drop p⟩ n d) :
    ∃ q, p ≤ q ∧ q ≤ ts.length ∧ d.rest = (ts ++ [eof]).drop q ∧
      List.Forall₂ Token.Reads (withoutTrailingCommas ((ts ++ [eof]).extract p q)) n.glyphs ∧
      n.Canonical ∧ ∀ m : Node, m.Canonical →
        List.Forall₂ Token.Reads (withoutTrailingCommas ((ts ++ [eof]).extract p q)) m.glyphs →
        m.unplaced = n.unplaced := by
  have hc : Cursor.Holds Rule.Expressive ⟨line, (ts ++ [eof]).drop p⟩ := by
    rw [List.drop_append_of_le_length hp]
    refine ⟨⟨eof, by simp, heof⟩, fun t ht => ?_⟩
    rcases List.mem_append.1 ht with ht | ht
    · exact .inl (hts t (List.mem_of_mem_drop ht))
    · rw [List.mem_singleton.1 ht]
      exact .inr heof
  -- `a` is what the rule has read, so the place behind it is `p + a.length`.
  obtain ⟨a, ⟨ha, hd⟩, hw⟩ := (Rule.exact budget).expression hc h
  have ha : (ts ++ [eof]).drop p = a ++ d.rest := ha
  have hlen : (ts ++ [eof]).length - p = a.length + d.rest.length := by
    rw [← List.length_drop, ha, List.length_append]
  have hpos : 0 < d.rest.length := List.length_pos_of_ne_nil hd.ne_nil
  have hextract : (ts ++ [eof]).extract p (p + a.length) = a := by
    rw [List.extract_eq_take_drop, ha, Nat.add_sub_cancel_left, List.take_left]
  have hcanonical : n.Canonical := by
    obtain ⟨-, hs, -⟩ := (Rule.sound budget).expression hc h
    exact Node.canonical_of_fits (hs.mono fun _ h => h.1) hw.kinds
  refine ⟨p + a.length, Nat.le_add_right _ _, ?_, ?_, ?_, hcanonical, ?_⟩
  · rw [List.length_append, List.length_singleton] at hlen
    omega
  · rw [← List.drop_drop, ha, List.drop_left]
  · rw [hextract]
    exact hw.glyphs
  · intro m hm hg
    rw [hextract] at hg
    exact Node.unplaced_eq_of_reads hm hcanonical hg hw.glyphs

/-- The tokens of `a - f(b multiply c,)`, on one line. -/
def differenceTokens : List Token :=
  [(.ident, "a"), (.minus, "-"), (.ident, "f"), (.lparen, "("), (.ident, "b"), (.ident, "multiply"),
    (.ident, "c"), (.comma, ","), (.rparen, ")")].map fun t => ⟨t.1, t.2, .start, none, none⟩

/-- The tree of these tokens. -/
def differenceTree : Node :=
  .binary .sub (.ident "a") (.call "f" [.binary .mul (.ident "b") (.ident "c")] .start)

/-- A difference of a name and a call. The comma behind the last argument is left out, and the operator that
is a word reads as its sign does. -/
theorem expression_exact_difference :
    ∃ q, 0 ≤ q ∧ q ≤ differenceTokens.length ∧
      [Token.endOfInput .start] = (differenceTokens ++ [Token.endOfInput .start]).drop q ∧
      List.Forall₂ Token.Reads (withoutTrailingCommas
        ((differenceTokens ++ [Token.endOfInput .start]).extract 0 q)) differenceTree.glyphs ∧
      differenceTree.Canonical ∧ ∀ m : Node, m.Canonical →
        List.Forall₂ Token.Reads (withoutTrailingCommas
          ((differenceTokens ++ [Token.endOfInput .start]).extract 0 q)) m.glyphs →
        m.unplaced = differenceTree.unplaced := by
  have hts : ∀ t ∈ differenceTokens, t.kind.isExpressive = true := by decide
  have h : (Rule.expression 20).Gives
      ⟨0, (differenceTokens ++ [Token.endOfInput .start]).drop 0⟩ differenceTree
      ⟨1, [Token.endOfInput .start]⟩ := rfl
  exact expression_exact hts rfl (Nat.zero_le _) h

end BlockConfig
