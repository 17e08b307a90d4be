import BlockConfig.Proofs.Decimal.Digits
import BlockConfig.Proofs.Grammar.Spelling
import BlockConfig.Proofs.Lexing.Lexemes

/-!
The pieces that rendered text is made of.

Punctuation with the blanks around it, operators, names and values written out: for each of them,
what it is cut into and what must not follow. Later files put these pieces together and need not
look at characters any more.
-/

set_option autoImplicit false

namespace BlockConfig

open Text

variable (pos : Position)

/-! ## 1. Punctuation and operators -/

/-- Punctuation marks that are never the beginning of something longer. -/
def Kind.isSolid : Kind → Bool
  | lbrace | rbrace | lbracket | rbracket | lparen | rparen | comma | dot | colon | atSign => true
  | _ => false

/-- A mark is cut as one token, whatever stands behind it. -/
theorem cuts_mark {k : Kind} (hk : k.isSolid = true) :
    ∃ t : Token, t.kind = k ∧ t.pos = pos ∧ Cuts Anything pos k.symbol.toList [t] := by
  have solid : ∀ {c : Char}, isGap c = false → k.symbol.toList = [c] →
      (∀ rest, Lexeme.scan c rest = .ok ⟨k, String.ofList [c], none, none, rest⟩) →
      ∃ t : Token, t.kind = k ∧ t.pos = pos ∧ Cuts Anything pos k.symbol.toList [t] := by
    intro c hc hs hscan
    rw [hs]
    exact ⟨_, rfl, rfl, cuts_lexeme hc fun rest _ => hscan rest⟩
  cases k <;> first | exact absurd hk (by decide) | skip
  all_goals
    refine solid rfl rfl fun rest => ?_
    cases rest <;> rfl

/-- A blank follows. -/
def Spaced (rest : List Char) : Prop :=
  ∃ cs, rest = ' ' :: cs

variable {pos} in
/-- Something with a blank on each side. -/
theorem Cuts.spaced {cs : List Char} {ts : List Token} (h : Cuts Spaced (pos.next ' ') cs ts) :
    Cuts Anything pos (' ' :: (cs ++ [' '])) ts := by
  have hblank : ∀ c ∈ [' '], isGap c = true := by
    intro c hc
    rw [List.mem_singleton.1 hc]
    rfl
  have hfront : Cuts Anything pos [' '] [] := cuts_gap hblank
  have hback : Cuts Anything ((pos.next ' ').advance cs) [' '] [] := cuts_gap hblank
  have hcut := h.append hback fun rest _ => ⟨rest, rfl⟩
  rw [List.append_nil] at hcut
  exact hfront.append hcut fun _ _ => trivial

/-- A mark that is read alone if a blank follows, with a blank on each side. -/
theorem cuts_spaced_mark {k : Kind} {c : Char} {cs : List Char} (hc : isGap c = false)
    (h : ∀ rest, Lexeme.scan c (cs ++ ' ' :: rest) =
      .ok ⟨k, String.ofList (c :: cs), none, none, ' ' :: rest⟩) :
    ∃ t : Token, t.kind = k ∧ Cuts Anything pos (' ' :: (c :: cs ++ [' '])) [t] := by
  refine ⟨⟨k, String.ofList (c :: cs), pos.next ' ', none, none⟩, rfl, ?_⟩
  apply Cuts.spaced
  apply cuts_lexeme hc
  rintro _ ⟨rest, rfl⟩
  exact h rest

/-- So is an operator with blanks around it. The blanks matter for the signs that are parts of longer
ones. -/
theorem cuts_operator (op : BinaryOp) :
    ∃ t : Token, BinaryOp.ofKind? t.kind = some op ∧
      Cuts Anything pos (' ' :: (op.symbol.toList ++ [' '])) [t] := by
  have operator : ∀ {k : Kind} {c : Char} {cs : List Char}, BinaryOp.ofKind? k = some op →
      isGap c = false → op.symbol.toList = c :: cs →
      (∀ rest, Lexeme.scan c (cs ++ ' ' :: rest) =
        .ok ⟨k, String.ofList (c :: cs), none, none, ' ' :: rest⟩) →
      ∃ t : Token, BinaryOp.ofKind? t.kind = some op ∧
        Cuts Anything pos (' ' :: (op.symbol.toList ++ [' '])) [t] := by
    intro k c cs hk hc hs hscan
    obtain ⟨t, rfl, ht⟩ := cuts_spaced_mark pos hc hscan
    rw [hs]
    exact ⟨t, hk, ht⟩
  cases op <;> exact operator rfl rfl rfl fun rest => rfl

/-- The same of the other signs that are written with blanks around them. -/
theorem cuts_sign {k : Kind} (hk : k = .assign ∨ k = .arrow ∨ k = .question ∨ k = .colon) :
    ∃ t : Token, t.kind = k ∧ Cuts Anything pos (' ' :: (k.symbol.toList ++ [' '])) [t] := by
  rcases hk with rfl | rfl | rfl | rfl <;> exact cuts_spaced_mark pos rfl fun rest => rfl

/-! ## 2. Names and keywords -/

/-- A name that can be written, in quotation marks if need be: its holes are closed. -/
def Writable (name : String) : Prop :=
  Lexeme.closesHoles 0 name.toList = true

/-- An identifier, which may be `null`. -/
def IsIdentifier (name : String) : Prop :=
  ∃ c cs, name.toList = c :: cs ∧ Lexeme.isNameStart c = true ∧
    (∀ d ∈ cs, Lexeme.isNameRest d = true) ∧ Lexeme.wordKind (c :: cs) = .ident

/-- A word is an identifier unless it is one of the five that stand for something else. -/
theorem wordKind_eq_ident_iff (name : String) :
    Lexeme.wordKind name.toList = .ident ↔
      name ≠ "true" ∧ name ≠ "false" ∧ name ≠ "IF" ∧ name ≠ "ELSEIF" ∧ name ≠ "ELSE" := by
  unfold Lexeme.wordKind
  simp only [String.toList_inj]
  by_cases h1 : name = "true" ∨ name = "false"
  · rcases h1 with rfl | rfl <;> simp
  · obtain ⟨h1, h2⟩ := not_or.1 h1
    by_cases h3 : name = "IF"
    · simp [h3]
    by_cases h4 : name = "ELSEIF"
    · simp [h4]
    by_cases h5 : name = "ELSE"
    · simp [h5]
    simp [h1, h2, h3, h4, h5]

/-- What is written bare is an identifier other than `null`. -/
theorem isPlainName_iff (name : String) :
    isPlainName name.toList = true ↔ IsIdentifier name ∧ name ≠ "null" := by
  have hkind := wordKind_eq_ident_iff name
  unfold isPlainName IsIdentifier
  cases h : name.toList with
  | nil => simp
  | cons c cs =>
    have hlist : String.ofList (c :: cs) = name := by rw [← h, String.ofList_toList]
    rw [h] at hkind
    simp only [hlist, Bool.and_eq_true, List.all_eq_true, Bool.not_eq_true', List.contains_eq_mem,
      List.mem_cons, List.not_mem_nil, or_false, decide_eq_false_iff_not, not_or]
    constructor
    · rintro ⟨⟨hc, hcs⟩, h1, h2, h3, h4, h5, h6⟩
      exact ⟨⟨c, cs, rfl, hc, fun d hd => hcs d (.inr hd), hkind.2 ⟨h1, h2, h4, h5, h6⟩⟩, h3⟩
    · rintro ⟨⟨x, xs, hx, hc, hcs, hk⟩, h3⟩
      obtain ⟨rfl, rfl⟩ := List.cons.inj hx
      obtain ⟨h1, h2, h4, h5, h6⟩ := hkind.1 hk
      refine ⟨⟨hc, fun d hd => ?_⟩, h1, h2, h3, h4, h5, h6⟩
      rcases hd with rfl | hd
      · exact Lexeme.isNameRest_of_isNameStart hc
      · exact hcs d hd

theorem not_isGap_of_isNameStart {c : Char} (h : Lexeme.isNameStart c = true) : isGap c = false := by
  cases hg : isGap c with
  | false => rfl
  | true =>
    simp only [isGap, Bool.or_eq_true, beq_iff_eq] at hg
    rcases hg with ((rfl | rfl) | rfl) | rfl <;> exact absurd h (by decide)

/-- An identifier is cut as one token in front of a character that does not go on it. -/
theorem cuts_identifier {name : String} (h : IsIdentifier name) :
    Cuts Loose pos name.toList [⟨.ident, name, pos, none, none⟩] := by
  obtain ⟨c, cs, hn, hc, hcs, hk⟩ := h
  have hname : String.ofList (c :: cs) = name := by rw [← hn, String.ofList_toList]
  rw [hn]
  refine cuts_lexeme (not_isGap_of_isNameStart hc) fun rest hr => ?_
  rw [Lexeme.scan_word hc hcs hr.name, hk, hname]

theorem cuts_word {name : String} (h : IsIdentifier name) :
    ∃ t : Token, t.IsWord name ∧ t.pos = pos ∧ Cuts Loose pos name.toList [t] :=
  ⟨_, ⟨rfl, rfl⟩, rfl, cuts_identifier pos h⟩

/-- A string in quotation marks ends with its second mark, whatever follows. -/
theorem cuts_string {q : Char} {s : String} (hq : Lexeme.isQuote q = true)
    (h : Lexeme.closesHoles 0 s.toList = true) :
    Cuts Anything pos (quoted q s).toList [⟨.str, s, pos, none, some q⟩] := by
  rw [Lexeme.toList_quoted]
  refine cuts_lexeme (Lexeme.not_isGap_of_isQuote hq) fun rest _ => ?_
  rw [List.append_assoc]
  exact Lexeme.scan_string hq h rest

/-- A name is cut as one token too, as an identifier or in quotes. -/
theorem cuts_name {name : String} (h : Writable name) :
    ∃ t : Token, t.Names name ∧ t.pos = pos ∧ Cuts Loose pos (nameText name).toList [t] := by
  rw [nameText]
  split
  next hp =>
    obtain ⟨t, ht, hpos, hcut⟩ := cuts_word pos ((isPlainName_iff name).1 hp).1
    exact ⟨t, ht.names, hpos, hcut⟩
  next =>
    exact ⟨_, ⟨rfl, rfl⟩, rfl, (cuts_string pos rfl h).mono fun _ _ => trivial⟩

/-- The front of a rendered name is never a point or a digit. -/
theorem nameText_head (name : String) :
    ∃ c cs, (nameText name).toList = c :: cs ∧ c.isDigit = false := by
  rw [nameText]
  split
  next hp =>
    obtain ⟨⟨c, cs, hn, hc, -⟩, -⟩ := (isPlainName_iff name).1 hp
    refine ⟨c, cs, hn, ?_⟩
    cases hd : c.isDigit with
    | false => rfl
    | true =>
      rw [Lexeme.not_isNameStart_of_isDigit hd] at hc
      exact absurd hc (by decide)
  next => exact ⟨'"', escapeFrom '"' 0 name.toList ++ ['"'], by simp [quoted, escape], rfl⟩

/-- A keyword is one token. -/
theorem cuts_keyword {k : Kind} (hk : k = .ifWord ∨ k = .elseIfWord ∨ k = .elseWord) :
    ∃ t : Token, t.kind = k ∧ t.pos = pos ∧ Cuts Loose pos k.symbol.toList [t] := by
  have keyword : ∀ {c : Char} {cs : List Char}, k.symbol.toList = c :: cs →
      Lexeme.isNameStart c = true → cs.all Lexeme.isNameRest = true →
      Lexeme.wordKind (c :: cs) = k →
      ∃ t : Token, t.kind = k ∧ t.pos = pos ∧ Cuts Loose pos k.symbol.toList [t] := by
    intro c cs hs hc hcs hk
    rw [hs]
    refine ⟨⟨k, String.ofList (c :: cs), pos, none, none⟩, rfl, rfl, ?_⟩
    refine cuts_lexeme (not_isGap_of_isNameStart hc) fun rest hr => ?_
    rw [Lexeme.scan_word hc (List.all_eq_true.1 hcs) hr.name, hk]
  rcases hk with rfl | rfl | rfl <;> exact keyword rfl rfl rfl rfl

/-! ## 3. Values written out -/

namespace Literal

/-- A value that can be written and read back as itself. -/
def Writable : Literal → Prop
  | str value quote none => Lexeme.isQuote quote = true ∧ Lexeme.closesHoles 0 value.toList = true
  | str value quote (some tag) =>
    quote = '"' ∧ Lexeme.FitsHeredoc tag.toList value.toList ∧
      ∃ c cs, tag.toList = c :: cs ∧ Lexeme.isNameStart c = true ∧
        ∀ d ∈ cs, Lexeme.isNameRest d = true
  | int value => 0 ≤ value.toInt
  | float value =>
    Lexeme.IsNumber (Decimal.sourceText value).toList ∧
      Rule.numberLiteral? (Decimal.sourceText value) = some (.float value)
  | bool _ | null => True

end Literal

theorem not_isGap_of_isDigit {c : Char} (h : c.isDigit = true) : isGap c = false := by
  cases hg : isGap c with
  | false => rfl
  | true =>
    simp only [isGap, Bool.or_eq_true, beq_iff_eq] at hg
    rcases hg with ((rfl | rfl) | rfl) | rfl <;> exact absurd h (by decide)

/-- A text that stands for a value does not begin like the second half of a longer mark. -/
def Opens (cs : List Char) : Prop :=
  ∃ c ds, cs = c :: ds ∧ c ≠ '=' ∧ c ≠ '>'

theorem Opens.append {cs : List Char} (h : Opens cs) (ds : List Char) : Opens (cs ++ ds) := by
  obtain ⟨c, es, rfl, hc⟩ := h
  exact ⟨c, es ++ ds, rfl, hc⟩

/-- A word or a number does not begin like half of a mark. -/
theorem opens_of_isNameRest {c : Char} (h : Lexeme.isNameRest c = true) (cs : List Char) :
    Opens (c :: cs) := by
  refine ⟨c, cs, rfl, ?_, ?_⟩
  · rintro rfl
    exact absurd h (by decide)
  · rintro rfl
    exact absurd h (by decide)

/-- A number is cut as one token, and stands for what its text is read as. -/
theorem cuts_number {text : String} {v : Literal} (hn : Lexeme.IsNumber text.toList)
    (hv : Rule.numberLiteral? text = some v) :
    Opens text.toList ∧ ∃ t : Token, t.Means v ∧ Cuts Loose pos text.toList [t] := by
  have hnumber := hn
  obtain ⟨d, ds, f, e, ht, hd, -⟩ := hnumber
  have hdd : d.isDigit = true := hd d (by simp)
  have htext : String.ofList (d :: (ds ++ (f ++ e))) = text := by rw [← ht, String.ofList_toList]
  rw [ht] at hn ⊢
  refine ⟨opens_of_isNameRest (Lexeme.isNameRest_of_isDigit hdd) _, ?_⟩
  refine ⟨⟨.number, text, pos, none, none⟩, .inl ⟨rfl, hv⟩, ?_⟩
  refine cuts_lexeme (not_isGap_of_isDigit hdd) fun rest hr => ?_
  rw [Lexeme.scan_number hn hr, htext]

/-- A quoted text is cut as one token with its unescaped text, if its holes are closed. It ends with its
quote, so nothing is asked of what follows. -/
theorem cuts_quoted {q : Char} {s : String} (hq : Lexeme.isQuote q = true)
    (h : Lexeme.closesHoles 0 s.toList = true) :
    Opens (quoted q s).toList ∧
      Cuts Anything pos (quoted q s).toList [⟨.str, s, pos, none, some q⟩] := by
  have hqc : q ≠ '=' ∧ q ≠ '>' := by
    rcases Lexeme.isQuote_cases hq with rfl | rfl | rfl <;> decide
  exact ⟨⟨q, _, Lexeme.toList_quoted q s, hqc⟩, cuts_string pos hq h⟩

/-- The characters of a heredoc. -/
theorem toList_heredocLines (tag value : String) :
    ("<<" ++ tag ++ "\n" ++ value ++ "\n" ++ tag).toList =
      '<' :: ('<' :: (tag.toList ++ '\n' :: (value.toList ++ '\n' :: tag.toList))) := by
  simp

/-- A heredoc up to the line that closes it, which nothing else may stand on. -/
theorem cuts_heredocLines {tag value : String} (ht : Lexeme.IsTag tag.toList)
    (hf : Lexeme.FitsHeredoc tag.toList value.toList) :
    Cuts Ends pos ("<<" ++ tag ++ "\n" ++ value ++ "\n" ++ tag).toList
      [⟨.heredoc, value, pos, some tag, none⟩] := by
  rw [toList_heredocLines]
  refine cuts_lexeme rfl fun rest hr => ?_
  have hscan := Lexeme.scan_heredoc ht hf hr
  rw [String.ofList_toList, String.ofList_toList] at hscan
  rw [← hscan]
  simp

/-- A heredoc is cut as one token with the text between its tags. Its closing tag stands on a line of its
own, so here too nothing has to be asked of what follows. -/
theorem cuts_heredoc {tag value : String} (hf : Lexeme.FitsHeredoc tag.toList value.toList)
    (ht : Lexeme.IsTag tag.toList) (quote : Char) :
    Opens (Literal.str value quote (some tag)).render.toList ∧
      Cuts Anything pos (Literal.str value quote (some tag)).render.toList
        [⟨.heredoc, value, pos, some tag, none⟩] := by
  have htext : (Literal.str value quote (some tag)).render.toList =
      ("<<" ++ tag ++ "\n" ++ value ++ "\n" ++ tag).toList ++ ['\n'] := by
    simp [Literal.render]
  rw [htext]
  constructor
  · exact Opens.append ⟨'<', _, toList_heredocLines tag value, by decide, by decide⟩ _
  · have hgap : ∀ {p : Position}, Cuts Anything p ['\n'] [] := cuts_gap fun d hd => by
      rw [List.mem_singleton.1 hd]
      rfl
    refine (cuts_heredocLines pos ht hf).append hgap fun rest _ => ?_
    rintro c ⟨⟩
    rfl

/-- **A value that is written out is read back.** Strings and numbers end by themselves, `true`, `false` and
`null` are words; the last of them is read as a name. -/
theorem cuts_literal {v : Literal} (h : v.Writable) :
    Opens v.render.toList ∧ ∃ t : Token, t.Means v ∧ Cuts Loose pos v.render.toList [t] := by
  have word : ∀ (text : String) {k : Kind} {c : Char} {cs : List Char}, text.toList = c :: cs →
      Lexeme.isNameStart c = true → cs.all Lexeme.isNameRest = true →
      Lexeme.wordKind (c :: cs) = k →
      Opens text.toList ∧ Cuts Loose pos text.toList [⟨k, text, pos, none, none⟩] := by
    intro text k c cs ht hc hcs hk
    have htext : String.ofList (c :: cs) = text := by rw [← ht, String.ofList_toList]
    rw [ht]
    refine ⟨opens_of_isNameRest (Lexeme.isNameRest_of_isNameStart hc) cs, ?_⟩
    refine cuts_lexeme (not_isGap_of_isNameStart hc) fun rest hr => ?_
    rw [Lexeme.scan_word hc (List.all_eq_true.1 hcs) hr.name, hk, htext]
  match v, h with
  | .str value quote none, h =>
    obtain ⟨ho, hcut⟩ := cuts_quoted pos h.1 h.2
    exact ⟨ho, _, .inr (.inl ⟨rfl, rfl⟩), hcut.mono fun _ _ => trivial⟩
  | .str value quote (some tag), h =>
    obtain ⟨rfl, hf, ht⟩ := h
    obtain ⟨ho, hcut⟩ := cuts_heredoc pos hf ht '"'
    exact ⟨ho, _, .inr (.inr (.inl ⟨rfl, rfl⟩)), hcut.mono fun _ _ => trivial⟩
  | .int value, h =>
    refine cuts_number pos ?_ (Decimal.numberLiteral?_intText h)
    rw [Literal.render, Decimal.toList_intText h]
    obtain ⟨d, ds, hd⟩ := List.exists_cons_of_ne_nil (Nat.toDigits_ne_nil (n := value.toInt.toNat) (b := 10))
    refine ⟨d, ds, [], [], by simpa using hd, fun x hx => ?_, .inl rfl, .inl rfl⟩
    exact Decimal.isDigit_of_mem_toDigits (n := value.toInt.toNat) (by rwa [hd])
  | .float value, h => exact cuts_number pos h.1 h.2
  | .bool true, _ =>
    obtain ⟨ho, hcut⟩ := word "true" (k := .bool) rfl rfl rfl rfl
    exact ⟨ho, _, .inr (.inr (.inr (.inl ⟨rfl, by simp⟩))), hcut⟩
  | .bool false, _ =>
    obtain ⟨ho, hcut⟩ := word "false" (k := .bool) rfl rfl rfl rfl
    exact ⟨ho, _, .inr (.inr (.inr (.inl ⟨rfl, by simp⟩))), hcut⟩
  | .null, _ =>
    obtain ⟨ho, hcut⟩ := word "null" (k := .ident) rfl rfl rfl rfl
    exact ⟨ho, _, .inr (.inr (.inr (.inr ⟨rfl, rfl, rfl⟩))), hcut⟩

/-! ## 4. References, comments and operators in front -/

/-- The text of a reference between its braces. -/
def referenceBody (name : String) : Option String → List Char
  | some text => name.toList ++ ':' :: text.toList
  | none => name.toList

/-- A reference that is read back as itself. -/
def IsReference (name : String) (default : Option String) : Prop :=
  Lexeme.FitsReference (referenceBody name default) ∧
    Rule.envReference (String.ofList (trimChars (referenceBody name default))) = .envRef name default

/-- A reference is cut as one token, and its text is taken apart into name and default again. -/
theorem cuts_reference {name : String} {default : Option String} (h : IsReference name default) :
    Opens (Node.referenceText name default).toList ∧
      ∃ t : Token, t.kind = .envRef ∧ Rule.envReference t.literal = .envRef name default ∧
        Cuts Anything pos (Node.referenceText name default).toList [t] := by
  have htext : (Node.referenceText name default).toList =
      '$' :: ('{' :: (referenceBody name default ++ ['}'])) := by
    cases default <;> simp [Node.referenceText, referenceBody]
  rw [htext]
  refine ⟨⟨'$', _, rfl, by decide, by decide⟩, ?_⟩
  refine ⟨⟨.envRef, String.ofList (trimChars (referenceBody name default)), pos, none, none⟩, rfl,
    h.2, ?_⟩
  refine cuts_lexeme rfl fun rest _ => ?_
  rw [← Lexeme.scan_reference h.1 rest]
  simp

/-- A comment is cut as one token in front of a line end. -/
theorem cuts_comment {text : String} (h : Lexeme.IsComment text.toList) :
    ∃ t : Token, t.kind = .comment ∧ t.literal = text ∧ Cuts Ends pos text.toList [t] := by
  refine ⟨⟨.comment, text, pos, none, none⟩, rfl, rfl, ?_⟩
  obtain ⟨c, cs, ht, hc⟩ : ∃ c cs, text.toList = c :: cs ∧ isGap c = false := by
    rcases h with ⟨⟨cs, h | h⟩, -⟩ | ⟨inner, h, -⟩
    · exact ⟨_, _, h, rfl⟩
    · exact ⟨_, _, h, rfl⟩
    · exact ⟨_, _, h, rfl⟩
  have htext : String.ofList (c :: cs) = text := by rw [← ht, String.ofList_toList]
  rw [ht] at h ⊢
  refine cuts_lexeme hc fun rest hr => ?_
  rw [Lexeme.scan_comment h hr, htext]

/-- An operator in front of its operand is read as that, a blank between the two or not. -/
theorem cuts_unaryOp (op : UnaryOp) {operand : String} (ho : Opens operand.toList) :
    ∃ (t : Token) (front : List Char), UnaryOp.ofKind? t.kind = some op ∧
      (Node.unaryText op operand).toList = front ++ operand.toList ∧ Opens front ∧
      Cuts (fun rest => ∃ more, rest = operand.toList ++ more) pos front [t] := by
  obtain ⟨c, cs, hc, hne⟩ := ho
  obtain ⟨k, x, hk, hx, hscan⟩ : ∃ k x, UnaryOp.ofKind? k = some op ∧ op.symbol.toList = [x] ∧
      isGap x = false ∧ x ≠ '=' ∧ x ≠ '>' ∧
      (∀ rest, Lexeme.scan x (' ' :: rest) = .ok ⟨k, String.ofList [x], none, none, ' ' :: rest⟩) ∧
      (c ≠ '-' → ∀ rest, Lexeme.scan x (c :: rest) =
        .ok ⟨k, String.ofList [x], none, none, c :: rest⟩) := by
    cases op with
    | neg =>
      refine ⟨.minus, '-', rfl, rfl, rfl, by decide, by decide, fun _ => rfl, fun hd rest => ?_⟩
      have hpair : Lexeme.pairKind? '-' c = none := by
        unfold Lexeme.pairKind?
        split <;> first | rfl | simp_all
      simp [Lexeme.scan, Lexeme.mark, Lexeme.isNameStart, Lexeme.isQuote, hpair, hd, Lexeme.singleKind?,
        Lexeme.plain]
    | not =>
      refine ⟨.bang, '!', rfl, rfl, rfl, by decide, by decide, fun _ => rfl, fun _ rest => ?_⟩
      have hpair : Lexeme.pairKind? '!' c = none := by
        unfold Lexeme.pairKind?
        split <;> first | rfl | simp_all
      simp [Lexeme.scan, Lexeme.mark, Lexeme.isNameStart, Lexeme.isQuote, hpair, Lexeme.singleKind?,
        Lexeme.plain]
  obtain ⟨hgap, hx1, hx2, hblank, hplain⟩ := hscan
  have htoken : ∀ {P : List Char → Prop}, (∀ rest, P rest →
      Lexeme.scan x rest = .ok ⟨k, String.ofList [x], none, none, rest⟩) →
      Cuts P pos [x] [⟨k, String.ofList [x], pos, none, none⟩] :=
    fun h => cuts_lexeme hgap h
  -- In front of a minus sign the renderer puts a blank, as two of them would begin a comment.
  by_cases hd : c = '-'
  · refine ⟨⟨k, String.ofList [x], pos, none, none⟩, [x, ' '], hk, ?_, ⟨x, [' '], rfl, hx1, hx2⟩, ?_⟩
    · simp [Node.unaryText, hc, hd, hx]
    · have hcut : Cuts Spaced pos [x] [⟨k, String.ofList [x], pos, none, none⟩] := by
        refine htoken ?_
        rintro _ ⟨rest, rfl⟩
        exact hblank rest
      have hback : Cuts Anything (pos.advance [x]) [' '] [] := cuts_gap fun y hy => by
        rw [List.mem_singleton.1 hy]
        rfl
      exact (hcut.append hback fun rest _ => ⟨rest, rfl⟩).mono fun _ _ => trivial
  · refine ⟨⟨k, String.ofList [x], pos, none, none⟩, [x], hk, ?_, ⟨x, [], rfl, hx1, hx2⟩, ?_⟩
    · simp [Node.unaryText, hc, hd, hx]
    · refine htoken ?_
      rintro _ ⟨more, rfl⟩
      rw [hc]
      exact hplain hd _

end BlockConfig
