import BlockConfig.Proofs.Grammar.Shape

/-!
How trees are spelled as tokens.

`n.Spells near ts` says that the tokens `ts`, and all of them, spell the tree `n`. It follows the
tree and leaves open what the grammar leaves open: a binary operator may be a symbol or a word, a
member may be a name or a string, and a comma may stand behind the last item of a list. The three
places where a line end matters are in it too, by way of the relation `near` between a token and the
one behind it: an operator written as a word, the parenthesis of a call and the label of a block are
near the token before them, and a statement does not begin near the end of the one before it. Taken
as "on the same line" this is what the reader asks for; taken as always true it forgets about lines.

Commas and semicolons between statements and comments inside values have no place here. A condition
of an `IF` chain is spelled in parentheses.
-/

set_option autoImplicit false

namespace BlockConfig

namespace Token

/-- A token that names something with a given text. -/
def Names (t : Token) (name : String) : Prop :=
  t.isName = true ∧ t.literal = name

/-- An identifier with a given text. -/
def IsWord (t : Token) (word : String) : Prop :=
  t.kind = .ident ∧ t.literal = word

/-- A token that stands for a binary operator behind the tokens `ts`. -/
def Operates (near : Token → Token → Prop) (ts : List Token) (t : Token) (op : BinaryOp) : Prop :=
  BinaryOp.ofKind? t.kind = some op ∨
    (t.kind = .ident ∧ BinaryOp.ofWord? t.literal = some op ∧ ∀ x ∈ ts.getLast?, near x t)

/-- Tokens on one line. -/
def SameLine (t u : Token) : Prop :=
  u.pos.line = t.pos.line

theorem IsWord.names {t : Token} {word : String} (h : t.IsWord word) : t.Names word :=
  ⟨by simp [isName, h.1], h.2⟩

end Token

/-- Identifiers with commas between them. -/
def SpellsNames : List String → List Token → Prop
  | [], ts => ts = []
  | [name], ts => ∃ t, ts = [t] ∧ t.IsWord name
  | name :: names, ts =>
    ∃ t comma rest, ts = t :: comma :: rest ∧ t.IsWord name ∧ comma.kind = .comma ∧
      SpellsNames names rest

/-- The relation in front of an arrow. -/
def SpellsRelation : Option Relation → List Token → Prop
  | none, ts => ts = []
  | some r, ts => ∃ t, ts = [t] ∧ t.IsWord r.name

section Spells

variable (near : Token → Token → Prop)

mutual

/-- The tokens spell the tree. -/
def Node.Spells : Node → List Token → Prop
  | .assign target value style, ts =>
    match style with
    | .flag => ∃ t, ts = [t] ∧ t.IsWord target.name
    | .colon =>
      ∃ t sign a, ts = t :: sign :: a ∧ t.Names target.name ∧ sign.kind = .colon ∧ value.Spells a
    | .equals =>
      ∃ t sign a, ts = t :: sign :: a ∧ t.Names target.name ∧ sign.kind = .assign ∧ value.Spells a
  | .assignEach pairs, ts =>
    ∃ names sign values, ts = names ++ sign :: values ∧
      SpellsNames (pairs.map fun p => p.1.name) names ∧ sign.kind = .assign ∧
      SpellsValues pairs values
  | .destructure targets source, ts =>
    ∃ names sign a, ts = names ++ sign :: a ∧ SpellsNames (targets.map Target.name) names ∧
      sign.kind = .assign ∧ source.Spells a
  | .block kind label body _, ts =>
    match label with
    | none =>
      ∃ t l b r, ts = t :: l :: (b ++ [r]) ∧ t.Names kind ∧ l.kind = .lbrace ∧
        SpellsStatements body b ∧ r.kind = .rbrace
    | some label =>
      ∃ t u l b r, ts = t :: u :: l :: (b ++ [r]) ∧ t.Names kind ∧ u.Names label ∧ near t u ∧
        l.kind = .lbrace ∧ SpellsStatements body b ∧ r.kind = .rbrace
  | .container kind body _, ts =>
    ∃ t l b r, ts = t :: l :: (b ++ [r]) ∧ t.Names kind ∧ l.kind = .lbrace ∧
      SpellsStatements body b ∧ r.kind = .rbrace
  | .arrow relation source target body _, ts =>
    ∃ front s sign t properties, ts = front ++ s :: sign :: t :: properties ∧
      SpellsRelation relation front ∧ s.Names source ∧ sign.kind = .arrow ∧ t.Names target ∧
      ((body = [] ∧ properties = []) ∨
        ∃ l b r, properties = l :: (b ++ [r]) ∧ l.kind = .lbrace ∧ SpellsStatements body b ∧
          r.kind = .rbrace)
  | .map entries, ts =>
    ∃ l b r, ts = l :: (b ++ [r]) ∧ l.kind = .lbrace ∧ SpellsStatements entries b ∧
      r.kind = .rbrace
  | .combinedMap items, ts =>
    ∃ l b r, ts = l :: (b ++ [r]) ∧ l.kind = .lbrace ∧ SpellsStatements items b ∧ r.kind = .rbrace
  | .list items, ts => ∃ l a, ts = l :: a ∧ l.kind = .lbracket ∧ SpellsItems .rbracket items a
  | .literal value, ts => ∃ t, ts = [t] ∧ t.Means value
  | .ident name, ts => ∃ t, ts = [t] ∧ t.IsWord name ∧ name ≠ "null"
  | .member left name, ts =>
    ∃ a dot t, ts = a ++ [dot, t] ∧ left.Spells a ∧ dot.kind = .dot ∧ t.Names name
  | .binary op left right, ts =>
    ∃ a t b, ts = a ++ t :: b ∧ left.Spells a ∧ t.Operates near a op ∧ right.Spells b
  | .unary op operand, ts =>
    ∃ t a, ts = t :: a ∧ UnaryOp.ofKind? t.kind = some op ∧ operand.Spells a
  | .ternary condition yes no, ts =>
    ∃ a q b colon d, ts = a ++ q :: (b ++ colon :: d) ∧ condition.Spells a ∧ q.kind = .question ∧
      yes.Spells b ∧ colon.kind = .colon ∧ no.Spells d
  | .group inner, ts =>
    ∃ l a r, ts = l :: (a ++ [r]) ∧ l.kind = .lparen ∧ inner.Spells a ∧ r.kind = .rparen
  | .call name args _, ts =>
    ∃ t l a, ts = t :: l :: a ∧ t.IsWord name ∧ name ≠ "null" ∧ l.kind = .lparen ∧ near t l ∧
      SpellsItems .rparen args a
  | .envRef name default, ts =>
    ∃ t, ts = [t] ∧ t.kind = .envRef ∧ Rule.envReference t.literal = .envRef name default
  | .inclusion target _, ts =>
    ∃ sign word a, ts = sign :: word :: a ∧ sign.kind = .atSign ∧ word.IsWord "include" ∧
      target.Spells a
  | .comment text, ts => ∃ t, ts = [t] ∧ t.kind = .comment ∧ t.literal = text
  | .control branches, ts => SpellsBranches .ifWord branches ts
  | .pipeline body _, ts =>
    ∃ sign word l b r, ts = sign :: word :: l :: (b ++ [r]) ∧ sign.kind = .atSign ∧
      word.IsWord "pipeline" ∧ l.kind = .lbrace ∧ SpellsStatements body b ∧ r.kind = .rbrace
  | .exec cmd args dir _, ts =>
    ∃ sign word l key eq a b d r,
      ts = sign :: word :: l :: key :: eq :: (a ++ (b ++ (d ++ [r]))) ∧ sign.kind = .atSign ∧
      word.IsWord "exec" ∧ l.kind = .lparen ∧ key.IsWord "cmd" ∧ eq.kind = .assign ∧
      cmd.Spells a ∧ SpellsOption "args" args b ∧ SpellsOption "dir" dir d ∧ r.kind = .rparen
  | .extract _ _, _ => False

/-- The tokens spell statements one after another, none of which begins near the end of the one
before it. -/
def SpellsStatements : List Node → List Token → Prop
  | [], ts => ts = []
  | n :: ns, ts =>
    ∃ a b, ts = a ++ b ∧ n.Spells a ∧ SpellsStatements ns b ∧
      ∀ x ∈ a.getLast?, ∀ y ∈ b.head?, ¬near x y

/-- The tokens spell expressions with commas between them and the bracket that closes them; a comma
may stand before that bracket. -/
def SpellsItems (close : Kind) : List Node → List Token → Prop
  | [], ts => ∃ r, ts = [r] ∧ r.kind = close
  | n :: ns, ts =>
    ∃ a t rest, ts = a ++ t :: rest ∧ n.Spells a ∧
      ((t.kind = .comma ∧ SpellsItems close ns rest) ∨ (t.kind = close ∧ ns = [] ∧ rest = []))

/-- The tokens spell the values of targets with commas between them. -/
def SpellsValues : List (Target × Node) → List Token → Prop
  | [], ts => ts = []
  | (_, n) :: pairs, ts =>
    (pairs = [] ∧ n.Spells ts) ∨
      ∃ a comma rest, ts = a ++ comma :: rest ∧ pairs ≠ [] ∧ n.Spells a ∧ comma.kind = .comma ∧
        SpellsValues pairs rest

/-- The tokens spell an argument of `@exec` that may be missing. -/
def SpellsOption (key : String) : Option Node → List Token → Prop
  | none, ts => ts = []
  | some n, ts =>
    ∃ comma t eq a, ts = comma :: t :: eq :: a ∧ comma.kind = .comma ∧ t.IsWord key ∧
      eq.kind = .assign ∧ n.Spells a

/-- The tokens spell the links of an `IF` chain, the first of which begins with a given keyword. -/
def SpellsBranches (keyword : Kind) : List (Branch Node) → List Token → Prop
  | [], ts => ts = []
  | ⟨some condition, body, _⟩ :: branches, ts =>
    ∃ word l a r l' b r' rest, ts = word :: l :: (a ++ r :: l' :: (b ++ r' :: rest)) ∧
      word.kind = keyword ∧ l.kind = .lparen ∧ condition.Spells a ∧ r.kind = .rparen ∧
      l'.kind = .lbrace ∧ SpellsStatements body b ∧ r'.kind = .rbrace ∧
      SpellsBranches .elseIfWord branches rest
  | ⟨none, body, _⟩ :: branches, ts =>
    ∃ word l b r rest, ts = word :: l :: (b ++ r :: rest) ∧ word.kind = .elseWord ∧
      l.kind = .lbrace ∧ SpellsStatements body b ∧ r.kind = .rbrace ∧
      SpellsBranches .elseIfWord branches rest

end

end Spells

/-! ## First tokens

What stands at the front of a value or a statement tells it apart from everything else that may
stand there. -/

namespace Kind

/-- The tokens that an operand without operators begins with. -/
def startsOperand : Kind → Bool
  | number | str | heredoc | bool | ident | envRef | lparen | lbracket | lbrace | atSign => true
  | _ => false

/-- The tokens that a statement begins with. -/
def startsStatement : Kind → Bool
  | comment | atSign | ifWord | ident | str => true
  | _ => false

theorem not_prefix_of_startsOperand {k : Kind} (h : k.startsOperand = true) :
    UnaryOp.ofKind? k = none := by
  cases k <;> first | rfl | exact absurd h (by decide)

end Kind

theorem Token.Names.startsStatement {t : Token} {name : String} (h : t.Names name) :
    t.kind.startsStatement = true := by
  have hn := h.1
  rcases Token.isName_iff.1 hn with hn | hn <;> rw [hn] <;> rfl

theorem Token.Names.not_comment {t : Token} {name : String} (h : t.Names name) :
    t.kind ≠ .comment := by
  intro hc
  have hn := h.1
  simp [Token.isName, hc] at hn

theorem Token.Means.startsOperand {t : Token} {v : Literal} (h : t.Means v) :
    t.kind.startsOperand = true := by
  rcases h with ⟨hk, -⟩ | ⟨hk, -⟩ | ⟨hk, -⟩ | ⟨hk, -⟩ | ⟨hk, -⟩ <;> rw [hk] <;> rfl

namespace Node

variable {near : Token → Token → Prop}

theorem startsOperand_of_spells_member {left : Node} {name : String} {t : Token}
    (hf : (member left name).FitsHere)
    (h : t.kind.startsOperand = true ∨ left.rank < 5 ∧ ∃ op, UnaryOp.ofKind? t.kind = some op) :
    t.kind.startsOperand = true := by
  rcases h with h | ⟨h, -⟩
  · exact h
  · have h1 := left.grip_le_rank
    have h2 := hf.2
    omega

/-- A value begins like an operand or, if it has operators at its top, with one in front. -/
theorem head_of_spells_value {n : Node} (hf : Everywhere FitsHere n) (hv : n.isValue = true)
    {ts : List Token} (h : n.Spells near ts) :
    ∃ t rest, ts = t :: rest ∧ (t.kind.startsOperand = true ∨
      n.rank < 5 ∧ ∃ op, UnaryOp.ofKind? t.kind = some op) := by
  induction hf generalizing ts with
  | @intro n hf _ ih =>
    cases n with
    | literal v =>
      obtain ⟨t, rfl, ht⟩ := h
      exact ⟨t, [], rfl, .inl ht.startsOperand⟩
    | ident name =>
      obtain ⟨t, rfl, ht, -⟩ := h
      exact ⟨t, [], rfl, .inl (by rw [ht.1]; rfl)⟩
    | call name args pos =>
      obtain ⟨t, l, a, rfl, ht, -⟩ := h
      exact ⟨t, l :: a, rfl, .inl (by rw [ht.1]; rfl)⟩
    | envRef name default =>
      obtain ⟨t, rfl, ht, -⟩ := h
      exact ⟨t, [], rfl, .inl (by rw [ht]; rfl)⟩
    | group inner =>
      obtain ⟨l, a, r, rfl, hl, -⟩ := h
      exact ⟨l, _, rfl, .inl (by rw [hl]; rfl)⟩
    | list items =>
      obtain ⟨l, a, rfl, hl, -⟩ := h
      exact ⟨l, a, rfl, .inl (by rw [hl]; rfl)⟩
    | map entries | combinedMap entries =>
      obtain ⟨l, b, r, rfl, hl, -⟩ := h
      exact ⟨l, _, rfl, .inl (by rw [hl]; rfl)⟩
    | inclusion target pos =>
      obtain ⟨sign, word, a, rfl, hs, -⟩ := h
      exact ⟨sign, _, rfl, .inl (by rw [hs]; rfl)⟩
    | pipeline body pos =>
      obtain ⟨sign, word, l, b, r, rfl, hs, -⟩ := h
      exact ⟨sign, _, rfl, .inl (by rw [hs]; rfl)⟩
    | exec cmd args dir pos =>
      obtain ⟨sign, word, l, key, eq, a, b, d, r, rfl, hs, -⟩ := h
      exact ⟨sign, _, rfl, .inl (by rw [hs]; rfl)⟩
    | unary op operand =>
      obtain ⟨t, a, rfl, ht, -⟩ := h
      exact ⟨t, a, rfl, .inr ⟨(by decide : 4 < 5), op, ht⟩⟩
    | member left name =>
      -- A member begins as its left side does, and that has no operator at its top.
      obtain ⟨a, dot, t, rfl, ha, -⟩ := h
      obtain ⟨x, rest, rfl, hx⟩ := ih left (by simp [children]) hf.1 ha
      exact ⟨x, _, rfl, .inl (startsOperand_of_spells_member hf hx)⟩
    | binary op left right =>
      -- These begin with their first operand, be it with a prefix of that.
      obtain ⟨a, t, b, rfl, ha, -⟩ := h
      obtain ⟨x, rest, rfl, hx⟩ := ih left (by simp [children]) hf.1 ha
      have hr : (binary op left right).rank < 5 := Nat.lt_succ_of_lt op.strength_lt
      exact ⟨x, _, rfl, hx.imp id fun hx => ⟨hr, hx.2⟩⟩
    | ternary condition yes no =>
      obtain ⟨a, q, b, colon, d, rfl, ha, -⟩ := h
      obtain ⟨x, rest, rfl, hx⟩ := ih condition (by simp [children]) hf.1 ha
      exact ⟨x, _, rfl, hx.imp id fun hx => ⟨(by decide : 0 < 5), hx.2⟩⟩
    | _ => exact absurd hv (by simp [isValue])

/-- What begins a list of names is a word. -/
theorem head_of_spellsNames {names : List String} {ts : List Token} (h : SpellsNames names ts)
    (hn : names ≠ []) : ∃ t rest name, ts = t :: rest ∧ t.IsWord name := by
  match names, h with
  | [], _ => exact absurd rfl hn
  | [name], h =>
    obtain ⟨t, rfl, ht⟩ := h
    exact ⟨t, [], name, rfl, ht⟩
  | name :: _ :: _, h =>
    obtain ⟨t, comma, rest, rfl, ht, -⟩ := h
    exact ⟨t, _, name, rfl, ht⟩

/-- A statement begins with one of five kinds of token, and a comment is all of its statement. -/
theorem head_of_spells_statement {n : Node} (hk : n.isStatement = true) (hf : n.FitsHere)
    {ts : List Token} (h : n.Spells near ts) :
    ∃ t rest, ts = t :: rest ∧ t.kind.startsStatement = true ∧ (t.kind = .comment → rest = []) := by
  cases n with
  | assign target value style =>
    cases style with
    | flag =>
      obtain ⟨t, rfl, ht⟩ := h
      exact ⟨t, [], rfl, ht.names.startsStatement, fun _ => rfl⟩
    | colon | equals =>
      obtain ⟨t, sign, a, rfl, ht, -⟩ := h
      exact ⟨t, _, rfl, ht.startsStatement, fun hc => absurd hc ht.not_comment⟩
  | assignEach pairs =>
    obtain ⟨names, sign, values, rfl, hn, -⟩ := h
    have hl := hf.1
    obtain ⟨t, rest, name, rfl, ht⟩ := head_of_spellsNames hn (by
      rintro he
      simp [List.map_eq_nil_iff.1 he] at hl)
    exact ⟨t, _, rfl, ht.names.startsStatement, fun hc => absurd hc ht.names.not_comment⟩
  | destructure targets source =>
    obtain ⟨names, sign, a, rfl, hn, -⟩ := h
    have hl := hf.1
    obtain ⟨t, rest, name, rfl, ht⟩ := head_of_spellsNames hn (by
      rintro he
      simp [List.map_eq_nil_iff.1 he] at hl)
    exact ⟨t, _, rfl, ht.names.startsStatement, fun hc => absurd hc ht.names.not_comment⟩
  | block kind label body pos =>
    cases label with
    | none =>
      obtain ⟨t, l, b, r, rfl, ht, -⟩ := h
      exact ⟨t, _, rfl, ht.startsStatement, fun hc => absurd hc ht.not_comment⟩
    | some label =>
      obtain ⟨t, u, l, b, r, rfl, ht, -⟩ := h
      exact ⟨t, _, rfl, ht.startsStatement, fun hc => absurd hc ht.not_comment⟩
  | container kind body pos =>
    obtain ⟨t, l, b, r, rfl, ht, -⟩ := h
    exact ⟨t, _, rfl, ht.startsStatement, fun hc => absurd hc ht.not_comment⟩
  | arrow relation source target body pos =>
    obtain ⟨front, s, sign, t, properties, rfl, hr, hs, -⟩ := h
    cases relation with
    | none =>
      obtain rfl := hr
      exact ⟨s, _, rfl, hs.startsStatement, fun hc => absurd hc hs.not_comment⟩
    | some r =>
      obtain ⟨w, rfl, hw⟩ := hr
      exact ⟨w, _, rfl, hw.names.startsStatement, fun hc => absurd hc hw.names.not_comment⟩
  | inclusion target pos =>
    obtain ⟨sign, word, a, rfl, hs, -⟩ := h
    exact ⟨sign, _, rfl, by rw [hs]; rfl, by simp [hs]⟩
  | comment text =>
    obtain ⟨t, rfl, ht, -⟩ := h
    exact ⟨t, [], rfl, by rw [ht]; rfl, fun _ => rfl⟩
  | control branches =>
    -- A chain has a first branch, and that has a condition.
    obtain ⟨b, hb, hc⟩ := hf.1
    match branches, hb with
    | ⟨some condition, body, pos⟩ :: bs, _ =>
      obtain ⟨word, l, a, r, l', b, r', rest, rfl, hw, -⟩ := h
      exact ⟨word, _, rfl, by rw [hw]; rfl, by simp [hw]⟩
    | ⟨none, body, pos⟩ :: bs, hb =>
      obtain rfl := Option.some.inj hb
      exact absurd hc (by simp)
  | pipeline body pos =>
    obtain ⟨sign, word, l, b, r, rfl, hs, -⟩ := h
    exact ⟨sign, _, rfl, by rw [hs]; rfl, by simp [hs]⟩
  | exec cmd args dir pos =>
    obtain ⟨sign, word, l, key, eq, a, b, d, r, rfl, hs, -⟩ := h
    exact ⟨sign, _, rfl, by rw [hs]; rfl, by simp [hs]⟩
  | _ => exact absurd hk (by simp [isStatement])

end Node

end BlockConfig
