import BlockConfig.Token.Lexer

/-!
Cutting a text that is known piece by piece.

`Cuts follow pos cs ts` says that the text `cs`, standing at `pos`, is cut into the tokens `ts`
whatever stands behind it, as long as that is something that `follow` allows. Pieces can then be put
together (`Cuts.append`): it is enough that the second piece and what is allowed behind it may stand
behind the first. The smallest pieces are gaps and single lexemes.

Where lines matter, they are counted: a token never stands outside of the lines of its piece.
-/

set_option autoImplicit false

namespace BlockConfig

open Text

namespace Position

@[simp] theorem advance_nil (p : Position) : p.advance [] = p := rfl

@[simp] theorem advance_cons (p : Position) (c : Char) (cs : List Char) :
    p.advance (c :: cs) = (p.next c).advance cs := rfl

/-- A text moves down by its line feeds. -/
theorem line_advance (p : Position) (cs : List Char) :
    (p.advance cs).line = p.line + cs.count '\n' := by
  induction cs generalizing p with
  | nil => rfl
  | cons c cs ih =>
    rw [advance_cons, ih]
    by_cases h : c = '\n'
    · rw [h, List.count_cons_self, next, if_pos rfl]
      exact Nat.add_right_comm p.line 1 (cs.count '\n')
    · rw [List.count_cons_of_ne h, next, if_neg h]

theorem line_le_advance (p : Position) (cs : List Char) : p.line ≤ (p.advance cs).line := by
  rw [line_advance]
  exact Nat.le_add_right _ _

end Position

namespace Token

/-! ## 1. Single steps -/

/-- One token is cut off, or none is left. -/
theorem listFrom_eq (pos : Position) (cs : List Char) :
    listFrom pos cs =
      match cs.dropWhile isGap with
      | [] => .ok [endOfInput (pos.advance (cs.takeWhile isGap))]
      | c :: body =>
        match Lexeme.scan c body with
        | .error fault => .error ⟨fault, pos.advance (cs.takeWhile isGap)⟩
        | .ok l =>
          (listFrom ((pos.advance (cs.takeWhile isGap)).advance
            ((c :: body).take (body.length + 1 - l.rest.length))) l.rest).map
              (ofLexeme (pos.advance (cs.takeWhile isGap)) l :: ·) := by
  rw [listFrom]
  split
  next h => rw [h]
  next c body h =>
    rw [h]
    dsimp only
    split
    next fault hl => rw [hl]
    next l hl => rw [hl]

/-- A text is cut step by step. -/
theorem listFrom_step {pos : Position} {c : Char} {cs body : List Char} {l : Lexeme} {t : Token}
    {ts : List Token} (hc : cs.dropWhile isGap = c :: body) (h : Lexeme.scan c body = .ok l)
    (ht : ofLexeme (pos.advance (cs.takeWhile isGap)) l = t)
    (hts : listFrom ((pos.advance (cs.takeWhile isGap)).advance
      ((c :: body).take (body.length + 1 - l.rest.length))) l.rest = .ok ts) :
    listFrom pos cs = .ok (t :: ts) := by
  rw [listFrom_eq, hc]
  dsimp only
  rw [h]
  dsimp only
  rw [hts, ht]
  rfl

theorem listFrom_nil (pos : Position) : listFrom pos [] = .ok [endOfInput pos] := by
  rw [listFrom_eq]
  rfl

theorem listFrom_gap {c : Char} (h : isGap c = true) (pos : Position) (cs : List Char) :
    listFrom pos (c :: cs) = listFrom (pos.next c) cs := by
  rw [listFrom_eq, listFrom_eq, List.takeWhile_cons_of_pos h, List.dropWhile_cons_of_pos h]
  rfl

/-- A lexeme at the beginning of a text is its first token, and the others are those of the rest. -/
theorem listFrom_lexeme {c : Char} {body rest : List Char} {l : Lexeme} (hc : isGap c = false)
    (h : Lexeme.scan c (body ++ rest) = .ok l) (hr : l.rest = rest) (pos : Position) :
    listFrom pos (c :: (body ++ rest)) =
      (listFrom (pos.advance (c :: body)) rest).map (ofLexeme pos l :: ·) := by
  have hg : ¬isGap c = true := by simp [hc]
  have hlen : (body ++ rest).length + 1 - rest.length = (c :: body).length := by
    rw [List.length_append, List.length_cons]
    omega
  have htake : (c :: (body ++ rest)).take ((body ++ rest).length + 1 - rest.length) = c :: body := by
    rw [hlen, ← List.cons_append, List.take_left]
  rw [listFrom_eq, List.takeWhile_cons_of_neg hg, List.dropWhile_cons_of_neg hg]
  dsimp only
  rw [h]
  dsimp only
  rw [hr, htake]
  rfl

/-- The first token of a text that begins with no gap, and the others. -/
theorem exists_of_listFrom_cons {p : Position} {c : Char} {cs : List Char} {ts : List Token}
    (hc : isGap c = false) (h : listFrom p (c :: cs) = .ok ts) :
    ∃ l taken us, Lexeme.scan c cs = .ok l ∧ cs = taken ++ l.rest ∧
      listFrom (p.advance (c :: taken)) l.rest = .ok us ∧
      ts = ofLexeme p l :: us := by
  have hg : ¬isGap c = true := by simp [hc]
  rw [listFrom_eq, List.takeWhile_cons_of_neg hg, List.dropWhile_cons_of_neg hg] at h
  dsimp only at h
  cases hl : Lexeme.scan c cs with
  | error fault =>
    rw [hl] at h
    cases h
  | ok l =>
    obtain ⟨taken, rfl⟩ := Lexeme.suffix_of_scan hl
    have hlen : (taken ++ l.rest).length + 1 - l.rest.length = (c :: taken).length := by
      rw [List.length_append, List.length_cons]
      omega
    rw [hl] at h
    dsimp only at h
    rw [hlen, ← List.cons_append, List.take_left] at h
    cases hus : listFrom (p.advance (c :: taken)) l.rest with
    | error m =>
      rw [Position.advance_nil, hus] at h
      cases h
    | ok us =>
      rw [Position.advance_nil, hus] at h
      exact ⟨l, taken, us, rfl, rfl, hus, (Except.ok.inj h).symm⟩

/-- How the tokens of a text are found: characters of gaps are passed over and lexemes are taken, up
to the end of the text. -/
inductive Listed : Position → List Char → List Token → Prop
  | nil (p : Position) : Listed p [] [endOfInput p]
  | gap {p : Position} {c : Char} {cs : List Char} {ts : List Token} (hc : isGap c = true)
      (h : Listed (p.next c) cs ts) : Listed p (c :: cs) ts
  | lexeme {p : Position} {c : Char} {taken : List Char} {l : Lexeme} {ts : List Token}
      (hc : isGap c = false) (hl : Lexeme.scan c (taken ++ l.rest) = .ok l)
      (h : Listed (p.advance (c :: taken)) l.rest ts) :
      Listed p (c :: (taken ++ l.rest)) (ofLexeme p l :: ts)

/-- Cutting a text into tokens is passing gaps and taking lexemes. The induction is on the text, which
becomes shorter with each of them. -/
theorem listed_of_listFrom {p : Position} {cs : List Char} {ts : List Token}
    (h : listFrom p cs = .ok ts) : Listed p cs ts := by
  induction hn : cs.length using Nat.strongRecOn generalizing p cs ts with
  | _ n ih =>
    cases cs with
    | nil =>
      obtain rfl := Except.ok.inj ((listFrom_nil p).symm.trans h)
      exact .nil p
    | cons c cs =>
      rw [List.length_cons] at hn
      cases hc : isGap c with
      | true =>
        rw [listFrom_gap hc] at h
        exact .gap hc (ih _ (by omega) h rfl)
      | false =>
        obtain ⟨l, taken, us, hl, rfl, hus, rfl⟩ := exists_of_listFrom_cons hc h
        rw [List.length_append] at hn
        exact .lexeme hc hl (ih _ (by omega) hus rfl)

end Token

/-! ## 2. Pieces of text -/

/-- The text `cs` at `pos` is cut into the tokens `ts` if something allowed stands behind it. -/
structure Cuts (follow : List Char → Prop) (pos : Position) (cs : List Char) (ts : List Token) :
    Prop where
  lines : ∀ t ∈ ts, pos.line ≤ t.pos.line ∧ t.pos.line ≤ (pos.advance cs).line
  cut : ∀ rest, follow rest → Token.listFrom pos (cs ++ rest) =
    (Token.listFrom (pos.advance cs) rest).map (ts ++ ·)

/-- Anything may stand behind a text. -/
def Anything (_ : List Char) : Prop :=
  True

theorem anything (cs : List Char) : Anything cs :=
  trivial

section Cuts

variable {P Q : List Char → Prop} {pos : Position} {a b : List Char} {x y : List Token}

/-- Two texts are cut one after the other, if what follows the first does so in a way that its last token
allows. -/
theorem Cuts.append (ha : Cuts P pos a x) (hb : Cuts Q (pos.advance a) b y)
    (hf : ∀ rest, Q rest → P (b ++ rest)) : Cuts Q pos (a ++ b) (x ++ y) where
  lines := by
    have h1 := Position.line_le_advance pos a
    have h2 := Position.line_le_advance (pos.advance a) b
    intro t ht
    rw [Position.advance_append]
    rcases List.mem_append.1 ht with ht | ht
    · have h := ha.lines t ht
      exact ⟨h.1, Nat.le_trans h.2 h2⟩
    · have h := hb.lines t ht
      exact ⟨Nat.le_trans h1 h.1, h.2⟩
  cut := by
    intro rest hr
    rw [List.append_assoc, ha.cut _ (hf rest hr), hb.cut rest hr, Position.advance_append]
    cases Token.listFrom ((pos.advance a).advance b) rest with
    | error m => rfl
    | ok ts => simp [Except.map]

theorem Cuts.mono (h : Cuts P pos a x) (hf : ∀ rest, Q rest → P rest) : Cuts Q pos a x where
  lines := h.lines
  cut rest hr := h.cut rest (hf rest hr)

theorem cuts_nil : Cuts P pos [] [] where
  lines := by simp
  cut rest _ := by
    rw [List.nil_append, Position.advance_nil]
    cases Token.listFrom pos rest <;> rfl

/-- A gap is cut into nothing. -/
theorem cuts_gap (h : ∀ c ∈ a, isGap c = true) : Cuts P pos a [] := by
  induction a generalizing pos with
  | nil => exact cuts_nil
  | cons c cs ih =>
    have hcs : Cuts P (pos.next c) cs [] := ih fun d hd => h d (List.mem_cons_of_mem c hd)
    refine ⟨by simp, fun rest hr => ?_⟩
    rw [List.cons_append, Token.listFrom_gap (h c (by simp)), hcs.cut rest hr]
    rfl

/-- A lexeme that is the same in front of everything that is allowed to follow is one token. -/
theorem cuts_lexeme {c : Char} {kind : Kind} {literal : String} {delimiter : Option String}
    {quote : Option Char} (hc : isGap c = false)
    (h : ∀ rest, P rest →
      Lexeme.scan c (a ++ rest) = .ok ⟨kind, literal, delimiter, quote, rest⟩) :
    Cuts P pos (c :: a) [⟨kind, literal, pos, delimiter, quote⟩] where
  lines := by
    intro t ht
    rw [List.mem_singleton.1 ht]
    exact ⟨Nat.le_refl _, Position.line_le_advance pos (c :: a)⟩
  cut rest hr := Token.listFrom_lexeme hc (h rest hr) rfl pos

/-- The whole of a text is cut into its tokens and the end of input. -/
theorem Cuts.list (h : Cuts P .start a x) (hp : P []) :
    ∃ last, Token.list a = .ok (x ++ [Token.endOfInput last]) := by
  refine ⟨Position.start.advance a, ?_⟩
  have hcut := h.cut [] hp
  rw [List.append_nil, Token.listFrom_nil] at hcut
  rw [Token.list, hcut]
  rfl

end Cuts

end BlockConfig
