import BlockConfig.Proofs.Lexing.Scanned
import Mathlib.Data.List.Forall2
import Mathlib.Data.List.Induction

/-!
Where the tokens of a text stand.

Every token but the last is read from a stretch of the text, its span. Spans follow one another
without overlapping, only gap characters stand outside of them, and the position of a token counts
the line feeds and the characters in front of its span (`exists_spans_of_list`). A token whose
literal is no content but a spelling is spelled as its span is.

The lexer never looks back, so the argument goes forward: a text is taken in two parts, what has
been read and what is left, and the position is always that behind what has been read
(`covers_of_listFrom`).
-/

set_option autoImplicit false

namespace BlockConfig

open Text

/-! ## 1. Positions -/

/-- The place behind a text that begins a document: one line further for each line feed, and one
column further for each character since the last one. -/
def Position.behind (cs : List Char) : Position :=
  ⟨1 + cs.count '\n', 1 + (cs.reverse.takeWhile (· != '\n')).length⟩

/-- Counting on character by character leads to the place behind a text. -/
theorem Position.start_advance (cs : List Char) : start.advance cs = behind cs := by
  induction cs using List.reverseRecOn with
  | nil => rfl
  | append_singleton cs c ih =>
    rw [advance_append, ih, advance_cons, advance_nil, behind, behind, next]
    by_cases hc : c = '\n'
    · simp [hc, Nat.add_assoc]
    · simp [hc, Nat.add_assoc, Nat.add_comm 1]

theorem Position.behind_advance (a b : List Char) : (behind a).advance b = behind (a ++ b) := by
  rw [← start_advance, ← start_advance, advance_append]

/-- The place behind a text tells how much of a text it is. -/
theorem Position.eq_of_behind {cs a b : List Char} (ha : a <+: cs) (hb : b <+: cs)
    (h : behind a = behind b) : a = b := by
  have longer : ∀ {a d : List Char}, behind a = behind (a ++ d) → d = [] := by
    intro a d h
    simp only [behind, Position.mk.injEq, List.count_append] at h
    obtain ⟨hline, hcolumn⟩ := h
    have hall : ∀ x ∈ d.reverse, (x != '\n') = true := by
      intro x hx
      rw [bne_iff_ne]
      rintro rfl
      have hpos := List.count_pos_iff.2 (List.mem_reverse.1 hx)
      omega
    rw [List.reverse_append, List.takeWhile_append_of_pos hall, List.length_append,
      List.length_reverse] at hcolumn
    exact List.length_eq_zero_iff.1 (by omega)
  rcases List.prefix_or_prefix_of_prefix ha hb with ⟨d, rfl⟩ | ⟨d, rfl⟩
  · rw [longer h, List.append_nil]
  · rw [longer h.symm, List.append_nil]

/-- What a text is cut into when nothing stands behind it. -/
theorem Cuts.list_eq {P : List Char → Prop} {cs : List Char} {ts : List Token}
    (h : Cuts P .start cs ts) (hp : P []) :
    Token.list cs = .ok (ts ++ [Token.endOfInput (Position.behind cs)]) := by
  have hcut := h.cut [] hp
  rw [List.append_nil, Token.listFrom_nil, Position.start_advance] at hcut
  rw [Token.list, hcut]
  rfl

/-! ## 2. Spellings -/

/-- The kinds of token whose literal is the content of something with marks around it. -/
def Kind.isContent : Kind → Bool
  | str | envRef | heredoc => true
  | _ => false

namespace Lexeme

/-- What is kept of the spelling of a token: everything but the carriage returns at the end of a
comment that ends with its line. -/
def spelling (kind : Kind) (text : List Char) : List Char :=
  if kind = .comment ∧ ¬['/', '*'] <+: text then dropEndWhile (· == '\r') text else text

theorem spelling_of_ne_comment {k : Kind} (h : k ≠ .comment) (text : List Char) :
    spelling k text = text :=
  if_neg fun hc => h hc.1

/-- What is read of a comment and what is left are the whole text. -/
theorem append_of_closeComment {cs inner rest : List Char}
    (h : closeComment cs = some (inner, rest)) : cs = inner ++ rest := by
  fun_induction closeComment cs generalizing inner rest with
  | case1 => simp at h
  | case2 cs =>
    simp only [Option.some.injEq, Prod.mk.injEq] at h
    obtain ⟨rfl, rfl⟩ := h
    rfl
  | case3 c cs _ ih =>
    obtain ⟨i, hi, rfl⟩ := Lexeme.exists_of_map_fst (c :: ·) h
    rw [ih hi, List.cons_append]

theorem append_fraction (cs : List Char) : cs = (fraction cs).1 ++ (fraction cs).2 := by
  unfold fraction
  split
  next d cs =>
    split
    · rw [List.cons_append, List.cons_append, List.takeWhile_append_dropWhile]
    · rfl
  next => rfl

/-- What is read of an exponent and what is left are the whole text. -/
theorem append_exponent (cs : List Char) : cs = (exponent cs).1 ++ (exponent cs).2 := by
  unfold exponent
  split
  next e s cs =>
    split
    · rw [List.cons_append, List.cons_append, List.takeWhile_append_dropWhile]
    · split
      · split
        · rw [List.cons_append, List.cons_append, List.cons_append,
            List.takeWhile_append_dropWhile]
        · rfl
      · rfl
  next => rfl

theorem wordKind_ne (name : List Char) :
    wordKind name ≠ .comment ∧ wordKind name ≠ .str ∧ wordKind name ≠ .eof := by
  unfold wordKind
  repeat' split
  all_goals exact ⟨by decide, by decide, by decide⟩

/-- A mark is neither a comment nor the end of input. -/
theorem kind_of_mark {c : Char} {cs : List Char} {l : Lexeme} (h : mark c cs = .ok l) :
    l.kind ≠ .comment ∧ l.kind ≠ .eof := by
  have single : ∀ {k : Kind}, singleKind? c = some k → k ≠ .comment ∧ k ≠ .eof := by
    intro k hk
    unfold singleKind? at hk
    split at hk
    all_goals first | (obtain rfl := Option.some.inj hk; exact ⟨by decide, by decide⟩) | simp at hk
  have pair : ∀ {d : Char} {k : Kind}, pairKind? c d = some k → k ≠ .comment ∧ k ≠ .eof := by
    intro d k hk
    unfold pairKind? at hk
    split at hk
    all_goals first | (obtain rfl := Option.some.inj hk; exact ⟨by decide, by decide⟩) | simp at hk
  rcases mark_ok_iff.1 h with ⟨k, hk, -, rfl⟩ | ⟨d, ds, k, -, hk, rfl⟩
  · exact single hk
  · exact pair hk

theorem kind_of_heredoc {tag body : List Char} {l : Lexeme} (h : heredoc tag body = .ok l) :
    l.kind = .heredoc := by
  unfold heredoc at h
  simp only at h
  split at h
  · simp at h
  · obtain rfl := Except.ok.inj h
    rfl

/-- No lexeme is the end of input. -/
theorem kind_ne_eof_of_scan {c : Char} {cs : List Char} {l : Lexeme} (h : scan c cs = .ok l) :
    l.kind ≠ .eof := by
  cases scan_ok_iff.1 h with
  | lineComment | number | string | blockComment | reference => exact Kind.noConfusion
  | word => exact (wordKind_ne _).2.2
  | heredoc ht h =>
    rw [kind_of_heredoc h]
    exact Kind.noConfusion
  | mark hc h => exact (kind_of_mark h).2

/-- A lexeme is spelled as the text that it took, whatever is left of that text behind it. -/
theorem spelling_of_scan {c : Char} {cs taken : List Char} {l : Lexeme} (h : scan c cs = .ok l)
    (hk : l.kind.isContent = false) (ht : c :: cs = taken ++ l.rest) :
    l.literal.toList = spelling l.kind taken := by
  -- It is enough to know one way in which the text can be cut in front of what is left.
  suffices key : ∃ text, c :: cs = text ++ l.rest ∧ l.literal.toList = spelling l.kind text by
    obtain ⟨text, he, hl⟩ := key
    rwa [List.append_cancel_right (ht.symm.trans he)]
  cases scan_ok_iff.1 h with
  | lineComment hc =>
    refine ⟨(c :: cs).takeWhile (· != '\n'), (List.takeWhile_append_dropWhile).symm, ?_⟩
    have hfront : ¬['/', '*'] <+: (c :: cs).takeWhile (· != '\n') := by
      intro hp
      have hhead : (c :: cs).head? = some '/' := by
        obtain ⟨ds, hds⟩ := hp.trans (List.takeWhile_prefix _)
        rw [← hds]
        rfl
      have hslash : c = '/' := Option.some.inj hhead
      rcases hc with rfl | ⟨rfl, -⟩ <;> exact absurd hslash (by decide)
    exact String.toList_ofList.trans (if_pos ⟨rfl, hfront⟩).symm
  | word hc =>
    refine ⟨(c :: cs).takeWhile isNameRest, (List.takeWhile_append_dropWhile).symm, ?_⟩
    exact String.toList_ofList.trans (spelling_of_ne_comment (wordKind_ne _).1 _).symm
  | number hc =>
    refine ⟨_, ?_, String.toList_ofList.trans (spelling_of_ne_comment Kind.noConfusion _).symm⟩
    show c :: cs = _ ++ (exponent _).2
    rw [List.append_assoc, ← append_exponent, List.append_assoc, ← append_fraction,
      List.takeWhile_append_dropWhile]
  | string | reference => exact absurd hk Bool.noConfusion
  | @blockComment cs inner rest hs =>
    refine ⟨'/' :: '*' :: inner, ?_, ?_⟩
    · rw [append_of_closeComment hs]
      rfl
    · exact String.toList_ofList.trans (if_neg fun hn => hn.2 ⟨inner, rfl⟩).symm
  | heredoc _ hs =>
    rw [kind_of_heredoc hs] at hk
    exact absurd hk (by decide)
  | mark _ hm =>
    have hne := (kind_of_mark hm).1
    rcases mark_ok_iff.1 hm with ⟨k, -, -, rfl⟩ | ⟨d, ds, k, rfl, -, rfl⟩
    · exact ⟨[c], rfl, String.toList_ofList.trans (spelling_of_ne_comment hne _).symm⟩
    · exact ⟨[c, d], rfl, String.toList_ofList.trans (spelling_of_ne_comment hne _).symm⟩

end Lexeme

/-! ## 3. Spans -/

/-- A stretch of a text: how many characters stand in front of it, and in front of what follows. -/
structure Span where
  start : Nat
  stop : Nat
deriving DecidableEq, Repr

/-- The text in a span. -/
def Span.text (s : Span) (cs : List Char) : List Char :=
  (cs.drop s.start).take (s.stop - s.start)

/-- The character number `i` is in the span. -/
def Span.Has (s : Span) (i : Nat) : Prop :=
  s.start ≤ i ∧ i < s.stop

/-- The token `t` of the text `cs` is read from the span `s`. -/
structure Token.ReadFrom (cs : List Char) (t : Token) (s : Span) : Prop where
  nonempty : s.start < s.stop
  inside : s.stop ≤ cs.length
  kind : t.kind ≠ .eof
  position : t.pos = Position.behind (cs.take s.start)
  spelled : t.kind.isContent = false → t.literal.toList = Lexeme.spelling t.kind (s.text cs)
  /-- The lexer, started at the span, reads the token and stops where the span stops. -/
  read : ∃ c body l, cs.drop s.start = c :: body ∧ Lexeme.scan c body = .ok l ∧
    l.rest = cs.drop s.stop ∧ t = Token.ofLexeme t.pos l

/-- The tokens `ts` are read from the spans, one from each, and together with gap characters the
spans are the whole text from the character number `offset` on. -/
structure Covers (offset : Nat) (cs : List Char) (ts : List Token) (spans : List Span) : Prop where
  tokens : List.Forall₂ (Token.ReadFrom cs) ts spans
  ordered : spans.Pairwise fun a b => a.start < b.start ∧ a.stop ≤ b.start
  later : ∀ s ∈ spans, offset ≤ s.start
  gaps : ∀ (i : Nat) (hi : i < cs.length), offset ≤ i → (∀ s ∈ spans, ¬s.Has i) →
    isGap cs[i] = true

/-- Nothing is left to be covered. -/
theorem covers_end (cs : List Char) : Covers cs.length cs [] [] where
  tokens := .nil
  ordered := .nil
  later := by simp
  gaps _ hi ho _ := absurd hi (Nat.not_lt.2 ho)

/-- One more gap character in front. -/
theorem Covers.gap {offset : Nat} {cs : List Char} {ts : List Token} {spans : List Span}
    (h : Covers (offset + 1) cs ts spans)
    (hgap : ∀ hi : offset < cs.length, isGap cs[offset] = true) : Covers offset cs ts spans where
  tokens := h.tokens
  ordered := h.ordered
  later s hs := Nat.le_of_succ_le (h.later s hs)
  gaps i hi ho hno := by
    rcases Nat.eq_or_lt_of_le ho with rfl | hlt
    · exact hgap hi
    · exact h.gaps i hi hlt hno

/-- One more token in front. -/
theorem Covers.cons {cs : List Char} {t : Token} {s : Span} {ts : List Token} {spans : List Span}
    (h : Covers s.stop cs ts spans) (ht : t.ReadFrom cs s) :
    Covers s.start cs (t :: ts) (s :: spans) where
  tokens := .cons ht h.tokens
  ordered := by
    refine List.pairwise_cons.2 ⟨fun b hb => ?_, h.ordered⟩
    have hlater := h.later b hb
    have hne := ht.nonempty
    exact ⟨by omega, hlater⟩
  later := by
    intro b hb
    rcases List.mem_cons.1 hb with rfl | hb
    · exact Nat.le_refl _
    · have hlater := h.later b hb
      have hne := ht.nonempty
      omega
  gaps := by
    intro i hi hoi hno
    refine h.gaps i hi ?_ fun b hb => hno b (List.mem_cons_of_mem s hb)
    exact Nat.le_of_not_lt fun hlt => hno s List.mem_cons_self ⟨hoi, hlt⟩

/-- Each token of a covered text was read from one of its spans. -/
theorem Covers.exists_readFrom {offset : Nat} {cs : List Char} {ts : List Token}
    {spans : List Span} (h : Covers offset cs ts spans) {t : Token} (ht : t ∈ ts) :
    ∃ s ∈ spans, t.ReadFrom cs s := by
  have hpairs := h.tokens
  clear h
  induction hpairs with
  | nil => simp at ht
  | @cons u s us spans hu _ ih =>
    rcases List.mem_cons.1 ht with rfl | ht
    · exact ⟨s, List.mem_cons_self, hu⟩
    · obtain ⟨s', hs', hread⟩ := ih ht
      exact ⟨s', List.mem_cons_of_mem s hs', hread⟩

/-! ## 4. Reading on -/

namespace Token

/-- One token, when `front` has been passed over and `taken` is what the lexer takes. -/
theorem readFrom_of_scan {front taken : List Char} {c : Char} {body : List Char} {l : Lexeme}
    (h : Lexeme.scan c body = .ok l) (ht : c :: body = taken ++ l.rest) :
    (ofLexeme (Position.behind front) l).ReadFrom (front ++ (c :: body))
      ⟨front.length, front.length + taken.length⟩ where
  nonempty := by
    have hlt := Lexeme.scan_shorter h
    rw [ht, List.length_append] at hlt
    show front.length < front.length + taken.length
    omega
  inside := by
    rw [ht, List.length_append, List.length_append]
    show front.length + taken.length ≤ _
    omega
  kind := Lexeme.kind_ne_eof_of_scan h
  position := by rw [List.take_left]; rfl
  spelled := by
    intro hk
    have htext : Span.text ⟨front.length, front.length + taken.length⟩ (front ++ (c :: body)) =
        taken := by
      rw [Span.text, List.drop_left, Nat.add_sub_cancel_left, ht, List.take_left]
    rw [htext]
    exact Lexeme.spelling_of_scan h hk ht
  read := by
    refine ⟨c, body, l, List.drop_left, h, ?_, rfl⟩
    rw [ht, ← List.append_assoc, ← List.length_append, List.drop_left]

/-- **What is left of a text is covered by its tokens,** wherever the reading stands. By induction on the
listing: a gap is passed over, and a lexeme gets the span from its first character to its rest. -/
theorem covers_of_listFrom {front cs : List Char} {ts : List Token}
    (h : listFrom (Position.behind front) cs = .ok ts) :
    ∃ init spans, ts = init ++ [endOfInput (Position.behind (front ++ cs))] ∧
      Covers front.length (front ++ cs) init spans := by
  generalize hp : Position.behind front = p at h
  replace h := listed_of_listFrom h
  -- What has been passed over grows with every step, and the whole text stays the same.
  induction h generalizing front with
  | nil p =>
    rw [List.append_nil, hp]
    exact ⟨[], [], rfl, covers_end front⟩
  | @gap p c cs ts hc _ ih =>
    have hnext : Position.behind (front ++ [c]) = p.next c := by
      rw [← Position.behind_advance, hp]
      rfl
    obtain ⟨init, spans, rfl, hcov⟩ := ih hnext
    rw [List.append_assoc, List.singleton_append] at hcov ⊢
    refine ⟨init, spans, rfl, ?_⟩
    rw [List.length_append] at hcov
    exact hcov.gap fun _ => by simpa using hc
  | @lexeme p c taken l ts _ hl _ ih =>
    have hnext : Position.behind (front ++ c :: taken) = p.advance (c :: taken) := by
      rw [← Position.behind_advance, hp]
    obtain ⟨init, spans, rfl, hcov⟩ := ih hnext
    have htext : front ++ c :: taken ++ l.rest = front ++ c :: (taken ++ l.rest) := by
      rw [List.append_assoc, List.cons_append]
    rw [htext] at hcov ⊢
    have hread := @readFrom_of_scan front (c :: taken) c (taken ++ l.rest) l hl rfl
    rw [List.length_append] at hcov
    rw [hp] at hread
    exact ⟨_ :: init, ⟨_, _⟩ :: spans, rfl, Covers.cons hcov hread⟩

/-- **The tokens of a text cover it.** The end of input stands behind the whole text; every other
token has a span of its own, the spans follow one another, and only gap characters stand outside of
them. -/
theorem exists_spans_of_list {cs : List Char} {ts : List Token} (h : list cs = .ok ts) :
    ∃ init spans, ts = init ++ [endOfInput (Position.behind cs)] ∧ Covers 0 cs init spans :=
  @covers_of_listFrom [] cs ts h

/-- A flag with a comment behind it, on a line that ends in a carriage return and a line feed. -/
theorem exists_spans_of_list_flag :
    list ['o', 'n', ' ', '#', 'x', '\r', '\n'] =
        .ok [⟨.ident, "on", ⟨1, 1⟩, none, none⟩, ⟨.comment, "#x", ⟨1, 4⟩, none, none⟩,
          endOfInput ⟨2, 1⟩] ∧
      ∃ init spans,
        [⟨.ident, "on", ⟨1, 1⟩, none, none⟩, ⟨.comment, "#x", ⟨1, 4⟩, none, none⟩,
            endOfInput ⟨2, 1⟩] =
          init ++ [endOfInput (Position.behind ['o', 'n', ' ', '#', 'x', '\r', '\n'])] ∧
        Covers 0 ['o', 'n', ' ', '#', 'x', '\r', '\n'] init spans := by
  have h : list ['o', 'n', ' ', '#', 'x', '\r', '\n'] =
      .ok [⟨.ident, "on", ⟨1, 1⟩, none, none⟩, ⟨.comment, "#x", ⟨1, 4⟩, none, none⟩,
        endOfInput ⟨2, 1⟩] := by
    refine listFrom_step rfl rfl rfl ?_
    refine listFrom_step rfl rfl rfl ?_
    exact (listFrom_gap rfl _ _).trans (listFrom_nil _)
  exact ⟨h, exists_spans_of_list h⟩

end Token

end BlockConfig
