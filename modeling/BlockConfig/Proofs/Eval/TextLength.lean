import BlockConfig.Node.Size
import BlockConfig.Proofs.Eval.Congruence
import BlockConfig.Proofs.Grammar.Parsed

/-!
How long the strings of a text are.

An expression inside a string is read from less than the string, since the marks around it are not part
of it. And no string of a tree is longer than the text that the tree was read from: an escape stands for
no more characters than it is written with, and a heredoc is a part of the text (`Token.Brief`). So the
strings of an expression inside a string are shorter than the string (`Node.longestText_lt_of_splices`),
and there are only so many strings inside each other as the outermost one has characters.
-/

set_option autoImplicit false

namespace BlockConfig

open Text

/-! ## 1. Tokens are not longer than their text -/

namespace Text

/-- A text in lines is at least as long as the first lines of it. -/
theorem length_joinWith_append (sep : List Char) (a b : List (List Char)) :
    (joinWith sep a).length ≤ (joinWith sep (a ++ b)).length := by
  induction a with
  | nil => exact Nat.zero_le _
  | cons piece pieces ih =>
    cases pieces with
    | nil =>
      cases b with
      | nil => exact Nat.le_refl _
      | cons piece' pieces' => simp [joinWith]
    | cons piece' pieces' =>
      simp only [List.cons_append, joinWith, List.length_append] at ih ⊢
      omega

end Text

namespace Lexeme

theorem length_unescape_le (c : Char) : (unescape c).length ≤ 2 := by
  unfold unescape
  repeat' split
  all_goals simp

/-- What a string stands for is not longer than what it is written with. -/
theorem length_of_stringBody {q : Char} {depth : Nat} {cs out rest : List Char}
    (h : stringBody q depth cs = some (out, rest)) : out.length ≤ cs.length := by
  fun_induction stringBody q depth cs generalizing out rest with
  | case1 | case4 | case7 => simp at h
  | case3 =>
    simp only [Option.some.injEq, Prod.mk.injEq] at h
    rw [← h.1]
    exact Nat.zero_le _
  | case2 | case5 | case6 | case9 =>
    rename_i ih
    obtain ⟨⟨i, r⟩, hi, he⟩ := Option.map_eq_some_iff.1 h
    simp only [Prod.mk.injEq] at he
    obtain ⟨rfl, rfl⟩ := he
    have := ih hi
    simp only [List.length_cons]
    omega
  | case8 =>
    -- Two characters of the text stand for at most two.
    rename_i ih
    obtain ⟨⟨i, r⟩, hi, he⟩ := Option.map_eq_some_iff.1 h
    simp only [Prod.mk.injEq] at he
    obtain ⟨rfl, rfl⟩ := he
    rw [List.length_append]
    refine Nat.le_trans (Nat.add_le_add (length_unescape_le _) (ih hi)) ?_
    simp only [List.length_cons]
    omega

/-- A heredoc is a part of the text. -/
theorem length_of_heredoc {tag body : List Char} {l : Lexeme} (h : heredoc tag body = .ok l) :
    l.literal.length ≤ body.length := by
  unfold heredoc at h
  simp only at h
  split at h
  · simp at h
  · obtain rfl := Except.ok.inj h
    have lines := length_joinWith_append ['\n']
      ((splitOnChar '\n' body).takeWhile fun line => !closesHeredoc tag line)
      ((splitOnChar '\n' body).dropWhile fun line => !closesHeredoc tag line)
    rw [List.takeWhile_append_dropWhile, joinWith_splitOnChar] at lines
    show (String.ofList _).length ≤ _
    rw [String.length_ofList]
    exact Nat.le_trans (length_dropEndWhile_le _ _) lines

theorem wordKind_ne_text (word : List Char) : wordKind word ≠ .str ∧ wordKind word ≠ .heredoc := by
  unfold wordKind
  repeat' split
  all_goals exact ⟨nofun, nofun⟩

end Lexeme

/-- If a token is a string, it is not longer than this. -/
def Token.Brief (longest : Nat) (t : Token) : Prop :=
  t.kind = .str ∨ t.kind = .heredoc → t.literal.length ≤ longest

namespace Token

theorem Brief.mono {longest longer : Nat} {t : Token} (h : t.Brief longest)
    (hle : longest ≤ longer) : t.Brief longer :=
  fun hk => Nat.le_trans (h hk) hle

theorem brief_of_isMark {longest : Nat} {t : Token} (h : t.kind.isMark = true) :
    t.Brief longest := by
  rintro (hk | hk) <;> rw [hk] at h <;> cases h

/-- **A string is not longer than the text it is cut off.** Its characters are read one by one, an escape as
one or two of them, and its marks are not a part of it. -/
theorem brief_of_scan {c : Char} {cs : List Char} {l : Lexeme} (h : Lexeme.scan c cs = .ok l)
    (pos : Position) : (ofLexeme pos l).Brief cs.length := by
  unfold Lexeme.scan at h
  split at h
  · obtain rfl := Except.ok.inj h
    exact nofun
  split at h
  · obtain rfl := Except.ok.inj h
    rintro (hk | hk)
    · exact absurd hk (Lexeme.wordKind_ne_text _).1
    · exact absurd hk (Lexeme.wordKind_ne_text _).2
  split at h
  · obtain rfl := Except.ok.inj h
    exact nofun
  split at h
  · unfold Lexeme.string at h
    split at h
    · simp at h
    next out rest hs =>
      -- An escape is never longer as it is read than as it is written.
      obtain rfl := Except.ok.inj h
      intro _
      show (String.ofList out).length ≤ _
      rw [String.length_ofList]
      exact Lexeme.length_of_stringBody hs
  split at h
  · obtain rfl := Except.ok.inj h
    exact nofun
  · unfold Lexeme.blockComment at h
    split at h
    · simp at h
    · obtain rfl := Except.ok.inj h
      exact nofun
  · unfold Lexeme.reference at h
    split at h
    · simp at h
    · obtain rfl := Except.ok.inj h
      exact nofun
  · split at h
    next tag body ht =>
      intro _
      have := (Lexeme.suffix_of_heredocTag? ht).length_le
      exact Nat.le_trans (Lexeme.length_of_heredoc h) (Nat.le_succ_of_le this)
    next => exact brief_of_isMark (Lexeme.isMark_of_mark h)
  · exact brief_of_isMark (Lexeme.isMark_of_mark h)

/-- **The strings of a text are not longer than the text.** Each of them is cut off what is left of the text
when the lexer comes to it. -/
theorem brief_of_listFrom {pos : Position} {cs : List Char} {ts : List Token}
    (h : listFrom pos cs = .ok ts) : ∀ t ∈ ts, t.Brief cs.length := by
  replace h := listed_of_listFrom h
  induction h with
  | nil p => exact List.forall_mem_singleton.2 (brief_of_isMark rfl)
  | gap _ _ ih => exact fun t ht => (ih t ht).mono (Nat.le_succ _)
  | @lexeme p _ taken l _ _ hl _ ih =>
    intro t ht
    rcases List.mem_cons.1 ht with rfl | ht
    · exact (brief_of_scan hl p).mono (Nat.le_succ _)
    · refine (ih t ht).mono ?_
      rw [List.length_cons, List.length_append]
      omega

end Token

/-! ## 2. Trees -/

/-- A number is no string. -/
theorem Rule.numberLiteral?_ne_str (text s : String) (quote : Char) (tag : Option String) :
    numberLiteral? text ≠ some (.str s quote tag) := by
  unfold numberLiteral?
  dsimp only
  split
  · nofun
  · intro h
    obtain ⟨_, -, ⟨⟩⟩ := Option.map_eq_some_iff.1 h

namespace Node

theorem longestTextAll_le_iff {ns : List Node} {longest : Nat} :
    longestTextAll ns ≤ longest ↔ ∀ n ∈ ns, n.longestText ≤ longest := by
  induction ns with
  | nil => simp [longestTextAll]
  | cons n ns ih => rw [longestTextAll, Nat.max_le, ih, List.forall_mem_cons]

theorem longestTextPairs_le_iff {pairs : List (Target × Node)} {longest : Nat} :
    longestTextPairs pairs ≤ longest ↔ ∀ p ∈ pairs, p.2.longestText ≤ longest := by
  induction pairs with
  | nil => simp [longestTextPairs]
  | cons p ps ih => rw [longestTextPairs, Nat.max_le, ih, List.forall_mem_cons]

theorem longestTextOption_le_iff {o : Option Node} {longest : Nat} :
    longestTextOption o ≤ longest ↔ ∀ n ∈ o.toList, n.longestText ≤ longest := by
  cases o <;> simp [longestTextOption]

theorem longestTextBranches_le_iff {bs : List (Branch Node)} {longest : Nat} :
    longestTextBranches bs ≤ longest ↔
      ∀ b ∈ bs, ∀ n ∈ b.condition.toList ++ b.body, n.longestText ≤ longest := by
  induction bs with
  | nil => simp [longestTextBranches]
  | cons b bs ih =>
    rw [longestTextBranches, Nat.max_le, Nat.max_le, ih, longestTextOption_le_iff,
      longestTextAll_le_iff, List.forall_mem_cons, List.forall_mem_append, and_assoc]

/-- The strings of a tree are bounded if its own is and those below it are. -/
theorem longestText_le_iff {n : Node} {longest : Nat} :
    n.longestText ≤ longest ↔
      (∀ s quote tag, n = .literal (.str s quote tag) → s.length ≤ longest) ∧
        ∀ m ∈ n.children, m.longestText ≤ longest := by
  cases n with
  | literal value => cases value <;> simp [longestText, children]
  | assignEach pairs =>
    rw [longestText, longestTextPairs_le_iff, children, List.forall_mem_map]
    exact (and_iff_right fun _ _ _ same => by cases same).symm
  | control branches =>
    rw [longestText, longestTextBranches_le_iff, children, List.forall_mem_flatMap]
    exact (and_iff_right fun _ _ _ same => by cases same).symm
  | exec cmd args dir pos =>
    rw [longestText, Nat.max_le, Nat.max_le, longestTextOption_le_iff, longestTextOption_le_iff,
      children, List.forall_mem_cons, List.forall_mem_append]
    exact (and_iff_right fun _ _ _ same => by cases same).symm
  | binary op left right =>
    rw [longestText, Nat.max_le, children, List.forall_mem_cons, List.forall_mem_singleton]
    exact (and_iff_right fun _ _ _ same => by cases same).symm
  | ternary condition yes no =>
    rw [longestText, Nat.max_le, Nat.max_le, children, List.forall_mem_cons, List.forall_mem_cons,
      List.forall_mem_singleton]
    exact (and_iff_right fun _ _ _ same => by cases same).symm
  | _ => simp [longestText, children, longestTextAll_le_iff]

/-- The strings of a tree are strings of its tokens. -/
theorem longestText_le_of_shaped {n : Node} {longest : Nat} (h : n.Shaped (Token.Brief longest)) :
    n.longestText ≤ longest := by
  induction h with
  | intro here below ih =>
    refine longestText_le_iff.2 ⟨?_, ih⟩
    rintro s quote tag rfl
    rcases here.2 with h | ⟨t, brief, ⟨-, h⟩ | ⟨hk, h⟩ | ⟨hk, h⟩ | ⟨-, h⟩ | ⟨-, -, h⟩⟩
    · cases h
    · exact absurd h (Rule.numberLiteral?_ne_str _ _ _ _)
    · cases h
      exact brief (.inl hk)
    · cases h
      exact brief (.inr hk)
    · cases h
    · cases h

/-- **The strings of an expression are not longer than its text.** The reader makes no strings of its own:
those of the tree are the literals of string tokens. -/
theorem longestText_parseExpression_le {text file : String} {n : Node}
    (h : parseExpression text file = .ok n) : n.longestText ≤ text.length := by
  obtain ⟨ts, c, tokens, gives⟩ := Rule.readText_ok_iff.1 h
  have holds : Cursor.Holds (Token.Brief text.length) (.ofTokens ts) := by
    refine ⟨(Token.lawful_of_listFrom tokens).1, ?_⟩
    have := Token.brief_of_listFrom tokens
    rwa [String.length_toList] at this
  obtain ⟨e, read, -⟩ := (Rule.gives_loneExpression _ _ _ _).1 gives
  exact longestText_le_of_shaped ((Rule.sound _).expression holds read).2.1

end Node

/-! ## 3. Holes -/

namespace Piece

/-- **What is in a hole is shorter than the string,** by the marks around it at least. So evaluating the
holes of the holes of a string comes to an end. -/
theorem length_of_hole {cs inner : List Char} (h : hole inner ∈ split cs) :
    inner.length < cs.length := by
  fun_induction split cs with
  | case1 => simp at h
  | case2 => simp at h
  | case3 cs front rest hcs body rest' hbody ih =>
    have opened := length_beforeHole hcs
    have closed := congrArg List.length (Lexeme.append_of_closeBraces hbody)
    rw [List.length_append, List.length_cons] at closed
    have later := (List.mem_cons.1 h).resolve_left nofun
    rcases List.mem_cons.1 later with same | h
    · obtain rfl := hole.inj same
      have := length_trimChars_le body
      omega
    · have := ih h
      omega

end Piece

/-- **The strings of an expression inside a string are shorter than the string.** They are not longer than
the hole that it was read from, and that is shorter. -/
theorem Node.longestText_lt_of_splices {n m : Node} (h : n.Splices m) :
    m.longestText < n.longestText := by
  obtain ⟨s, quote, tag, inner, file, rfl, hole, read⟩ := h
  have shorter := Piece.length_of_hole hole
  rw [String.length_toList] at shorter
  have found := Node.longestText_parseExpression_le (Hole.parseExpression_of_read read)
  rw [String.length_ofList] at found
  rw [Node.longestText]
  omega

/-- Evaluations in two settings are related wherever they leave a tree if they are at expressions in
shorter strings. -/
theorem Eval.agreesHere_of_shorter {R : {α : Type} → Eval α → Eval α → Prop} {src src' : Source}
    {hooks hooks' : Hooks} {length : Nat}
    (here : ∀ n : Node, (∀ m, n.Splices m → R (hooks.splice m) (hooks'.splice m)) →
      AgreesHere R src src' hooks hooks' n)
    (spliced : ∀ m : Node, m.longestText < length → R (hooks.splice m) (hooks'.splice m))
    {n : Node} (hn : n.longestText ≤ length) :
    n.Everywhere (AgreesHere R src src' hooks hooks') := by
  induction n using Node.induction_children with
  | step n ih =>
    refine .intro (here n fun m hm => spliced m ?_) fun m hm =>
      ih m hm ((Node.longestText_le_iff.1 hn).2 m hm)
    exact Nat.lt_of_lt_of_le (Node.longestText_lt_of_splices hm) hn

end BlockConfig
