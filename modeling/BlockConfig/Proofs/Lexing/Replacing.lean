import BlockConfig.Proofs.Lexing.Trimming

/-!
A text with a blank character in place of a comment.

Whatever stands in front of a comment is over there, and it is over in front of a blank character
too. Words and numbers stop in front of both, strings and block comments are closed by their own
marks, line comments and heredocs by the end of a line. There is one exception. Behind the two signs
of a shift a comment keeps a name from being the tag of a heredoc, and a blank character does not
(`OpensHeredoc`). Otherwise a text is cut into the same tokens with a blank character in place of a
comment: the tokens in front of it stay, the comment goes, and the tokens behind it are moved
(`Token.list_blanked`).
-/

set_option autoImplicit false

namespace BlockConfig

open Text

/-- A comment begins here. -/
def OpensComment (cs : List Char) : Prop :=
  ∃ ds, cs = '#' :: ds ∨ cs = '-' :: '-' :: ds ∨ cs = '/' :: '*' :: ds

/-- The text begins with a blank character. -/
def OpensBlank (cs : List Char) : Prop :=
  ∃ b bs, cs = b :: bs ∧ isBlank b = true

/-- The signs of a shift on the last line of a text become those of a heredoc with `rest` behind
it. -/
def OpensHeredoc (front rest : List Char) : Prop :=
  ∃ a u, front = a ++ '<' :: '<' :: u ∧ '\n' ∉ u ∧
    (Lexeme.heredocTag? (u ++ rest)).isSome = true

theorem OpensComment.append_ne_nil {a cs : List Char} (h : OpensComment cs) : a ++ cs ≠ [] := by
  obtain ⟨ds, rfl | rfl | rfl⟩ := h <;> simp

theorem OpensHeredoc.append {front rest : List Char} (h : OpensHeredoc front rest)
    (a : List Char) : OpensHeredoc (a ++ front) rest := by
  obtain ⟨b, u, rfl, hu, ht⟩ := h
  exact ⟨a ++ b, u, by rw [List.append_assoc], hu, ht⟩

namespace Lexeme

variable {c : Char} {taken a tail rest : List Char} {l : Lexeme}

/-! ## 1. Lexemes in front of a comment -/

/-- The mark of a comment goes on neither a word nor a number. -/
theorem stops_of_opensComment (h : OpensComment tail) : Stops tail := by
  have hfirst : ∀ c ∈ tail.head?, c = '#' ∨ c = '-' ∨ c = '/' := by
    obtain ⟨ds, rfl | rfl | rfl⟩ := h <;> simp
  refine ⟨fun c hc => ?_, fun c hc => ?_, ?_⟩
  · rcases hfirst c hc with rfl | rfl | rfl <;> decide
  · rcases hfirst c hc with rfl | rfl | rfl <;> decide
  · -- The only sign that begins a comment has another one behind it.
    rintro s d es rfl hs
    obtain ⟨ds, he | he | he⟩ := h
    · obtain ⟨rfl, -⟩ := List.cons.inj he
      exact absurd hs (by decide)
    · obtain ⟨-, he⟩ := List.cons.inj he
      obtain ⟨rfl, -⟩ := List.cons.inj he
      rfl
    · obtain ⟨rfl, -⟩ := List.cons.inj he
      exact absurd hs (by decide)

theorem stops_of_opensBlank (h : OpensBlank rest) : Stops rest := by
  obtain ⟨b, bs, rfl, hb⟩ := h
  refine stops_of_breaks ?_
  rintro c ⟨⟩
  exact hb

/-- What is left in front of a comment begins with a line end if it begins with one together with
the comment. -/
theorem exists_line_of_head (htail : OpensComment tail) (h : (a ++ tail).head? = some '\n') :
    ∃ b, a = '\n' :: b := by
  cases a with
  | nil =>
    obtain ⟨ds, rfl | rfl | rfl⟩ := htail
    all_goals exact absurd (Option.some.inj h) (by decide)
  | cons x xs =>
    obtain rfl : x = '\n' := Option.some.inj h
    exact ⟨xs, rfl⟩

/-- A heredoc is over in front of the line end behind its last line. -/
theorem exists_front_of_heredoc {tag body : List Char} (h : heredoc tag body = .ok l)
    (hl : l.rest ≠ []) : ∃ front more, body = front ++ '\n' :: more ∧ l.rest = '\n' :: more ∧
      ∀ more, heredoc tag (front ++ '\n' :: more) = .ok { l with rest := '\n' :: more } := by
  obtain ⟨content, line, after, hlines, hcontent, hline, rfl⟩ := heredoc_ok_iff.1 h
  have hsplit : splitOnChar '\n' (joinWith ['\n'] (content ++ [line])) = content ++ [line] := by
    refine splitOnChar_joinWith (by simp) fun piece hpiece => ?_
    refine @not_mem_splitOnChar '\n' body piece ?_
    rw [hlines]
    rcases List.mem_append.1 hpiece with hpiece | hpiece
    · exact List.mem_append_left _ hpiece
    · rw [List.mem_singleton.1 hpiece]
      exact List.mem_append_right _ List.mem_cons_self
  generalize joinWith ['\n'] (content ++ [line]) = front at hsplit
  -- The lines, each behind a line feed, spell the text behind one line feed.
  have hbody : body = front ++ after.flatMap ('\n' :: ·) := by
    have htext := flatMap_splitOnChar '\n' body
    rw [hlines, ← List.singleton_append, ← List.append_assoc, ← hsplit, List.flatMap_append,
      flatMap_splitOnChar] at htext
    exact (List.cons.inj htext).2.symm
  cases after with
  | nil => exact absurd rfl hl
  | cons next after =>
    refine ⟨front, next ++ after.flatMap ('\n' :: ·), hbody, rfl, fun more => ?_⟩
    refine heredoc_ok_iff.2 ⟨content, line, splitOnChar '\n' more, ?_, hcontent, hline, ?_⟩
    · rw [splitOnChar_append, hsplit, List.append_assoc, List.singleton_append]
    · rw [flatMap_splitOnChar]

/-- Nothing longer than an operator begins in front of a blank character. -/
theorem MarkAt.of_comment (h : MarkAt c (a ++ tail)) (hrest : OpensBlank rest)
    (hopen : ¬OpensHeredoc (c :: a) rest) : MarkAt c (a ++ rest) := by
  obtain ⟨b, bs, rfl, hb⟩ := hrest
  have first : ∀ {x : Char} {ds : List Char}, isBlank x = false → a ++ b :: bs = x :: ds →
      ∃ as, a = x :: as ∧ ds = as ++ b :: bs := by
    intro x ds hx he
    cases a with
    | nil =>
      obtain ⟨rfl, -⟩ := List.cons.inj he
      exact Bool.noConfusion (hx.symm.trans hb)
    | cons y ys =>
      obtain ⟨rfl, rfl⟩ := List.cons.inj he
      exact ⟨ys, rfl, rfl⟩
  refine ⟨h.sharp, h.name, h.digit, h.quote, ?_, ?_, ?_, ?_⟩
  · intro ds hc he
    obtain ⟨as, rfl, -⟩ := first rfl he
    exact h.dashes (as ++ tail) hc rfl
  · intro ds hc he
    obtain ⟨as, rfl, -⟩ := first rfl he
    exact h.comment (as ++ tail) hc rfl
  · intro ds hc he
    obtain ⟨as, rfl, -⟩ := first rfl he
    exact h.hole (as ++ tail) hc rfl
  · intro ds hc he
    obtain ⟨as, rfl, rfl⟩ := first rfl he
    by_cases hline : '\n' ∈ as
    · have hnone := h.heredoc (as ++ tail) hc rfl
      rw [heredocTag?_before hline] at hnone ⊢
      rw [Option.map_eq_none_iff.1 hnone]
      rfl
    · by_contra hsome
      exact hopen ⟨[], as, by rw [hc]; rfl, hline, Option.isSome_iff_ne_none.2 hsome⟩

theorem pairKind?_of_isBlank {b : Char} (hb : isBlank b = true) : pairKind? c b = none := by
  unfold pairKind?
  split
  all_goals first | rfl | exact absurd hb (by decide)

/-- A lexeme has the text `a` left in front of `tail`, and is read in front of `rest` as well. -/
def Rereads (c : Char) (taken a tail rest : List Char) (l : Lexeme) : Prop :=
  ∃ l₀, l = before l₀ tail ∧ Scanned c (taken ++ (a ++ rest)) (before l₀ rest)

/-- A comment to the end of its line, with another comment behind it, has a line end between the two. So it
ends there in front of anything. -/
theorem rereads_lineComment (hc : c = '#' ∨ c = '-' ∧ ∃ ds, taken ++ (a ++ tail) = '-' :: ds)
    (hl : (lineComment (c :: (taken ++ (a ++ tail)))).rest = a ++ tail)
    (htail : OpensComment tail) :
    Rereads c taken a tail rest (lineComment (c :: (taken ++ (a ++ tail)))) := by
  -- What is left begins with the line end, which is not a part of the comment behind it.
  have hline : ∃ b, a = '\n' :: b := by
    have hdrop : (c :: (taken ++ (a ++ tail))).dropWhile (· != '\n') = a ++ tail := hl
    refine exists_line_of_head htail ?_
    obtain ⟨x, xs, hx⟩ := List.exists_cons_of_ne_nil htail.append_ne_nil
    have hhead := List.head?_dropWhile_not (· != '\n') (c :: (taken ++ (a ++ tail)))
    rw [hdrop, hx] at hhead
    rw [hx]
    simpa using hhead
  obtain ⟨b, rfl⟩ := hline
  have hmem : '\n' ∈ c :: (taken ++ '\n' :: b) := by simp
  have hassoc : ∀ more,
      c :: (taken ++ ('\n' :: b ++ more)) = c :: (taken ++ '\n' :: b) ++ more := by simp
  refine ⟨lineComment (c :: (taken ++ '\n' :: b)), ?_, ?_⟩
  · rw [← lineComment_before hmem, ← hassoc]
  · rw [← lineComment_before hmem, ← hassoc]
    refine .lineComment (hc.imp id ?_)
    rintro ⟨rfl, ds, hds⟩
    refine ⟨rfl, ?_⟩
    cases taken with
    | nil => exact absurd (List.cons.inj hds).1 (by decide)
    | cons x xs =>
      obtain ⟨rfl, -⟩ := List.cons.inj hds
      exact ⟨_, rfl⟩

/-- A heredoc with a comment behind it has ended at the end of a line, since its closing line is compared as
a whole. Up to there nothing depends on what stands behind. -/
theorem rereads_heredoc {cs tag body : List Char} (htext : taken ++ (a ++ tail) = '<' :: cs)
    (ht : heredocTag? cs = some (tag, body)) (hs : heredoc tag body = .ok l)
    (hl : l.rest = a ++ tail) (htail : OpensComment tail) :
    Rereads '<' taken a tail rest l := by
  obtain ⟨front, more, rfl, hmore, hfront⟩ :=
    exists_front_of_heredoc hs (by rw [hl]; exact htail.append_ne_nil)
  obtain ⟨b, rfl⟩ := exists_line_of_head htail (by rw [← hl, hmore]; rfl)
  obtain rfl : more = b ++ tail := (List.cons.inj (hmore.symm.trans hl)).2
  -- The line of the tag is over before the content begins.
  obtain ⟨line, rfl, -⟩ := exists_line_of_heredocTag? ht
  have htag : ∀ {body}, heredocTag? (line ++ '\n' :: body) =
      (heredocTag? (line ++ ['\n'])).map (Prod.map id (· ++ body)) := by
    intro body
    rw [List.append_cons]
    exact heredocTag?_before (List.mem_append_right line List.mem_cons_self) body
  rw [htag] at ht
  obtain ⟨⟨tag, more⟩, ht, he⟩ := Option.map_eq_some_iff.1 ht
  simp only [Prod.map_apply, id, Prod.mk.injEq, List.append_left_eq_self] at he
  obtain ⟨rfl, rfl⟩ := he
  have hcut : taken ++ ('\n' :: b ++ tail) =
      '<' :: (line ++ '\n' :: front) ++ ('\n' :: b ++ tail) := by
    rw [htext]
    simp
  obtain rfl := List.append_cancel_right hcut
  refine ⟨{ l with rest := '\n' :: b }, ?_, ?_⟩
  · rw [before, ← hl]
  · have hcs : '<' :: (line ++ '\n' :: front) ++ ('\n' :: b ++ rest) =
        '<' :: (line ++ '\n' :: (front ++ '\n' :: (b ++ rest))) := by simp
    rw [hcs]
    refine .heredoc ?_ (hfront (b ++ rest))
    rw [htag, ht]
    rfl

/-- Blanks in place of the rest of a mark's text, from a comment on: the mark is read as before, unless the
comment was what kept it from opening a heredoc. -/
theorem rereads_mark (hm : MarkAt c (taken ++ (a ++ tail)))
    (h : mark c (taken ++ (a ++ tail)) = .ok l) (hl : l.rest = a ++ tail)
    (hrest : OpensBlank rest) (hopen : ¬OpensHeredoc (c :: (taken ++ a)) rest) :
    Rereads c taken a tail rest l := by
  rcases mark_ok_iff.1 h with ⟨k, hk, hno, rfl⟩ | ⟨d, ds, k, htext, hk, rfl⟩
  · obtain rfl : taken = [] := List.append_left_eq_self.1 hl
    have hm : MarkAt c (a ++ tail) := hm
    refine ⟨plain k [c] a, rfl, .mark (hm.of_comment hrest hopen) ?_⟩
    refine mark_ok_iff.2 (.inl ⟨k, hk, ?_, rfl⟩)
    cases a with
    | nil =>
      obtain ⟨b, bs, rfl, hb⟩ := hrest
      rintro d ⟨⟩
      exact pairKind?_of_isBlank hb
    | cons x xs => exact hno
  · obtain rfl : ds = a ++ tail := hl
    obtain rfl : taken = [d] := List.append_cancel_right (htext.trans List.singleton_append.symm)
    have hm : MarkAt c (d :: a ++ tail) := hm
    refine ⟨plain k [c, d] a, rfl, .mark (hm.of_comment hrest hopen) ?_⟩
    exact mark_ok_iff.2 (.inr ⟨d, a ++ rest, k, rfl, hk, rfl⟩)

/-- Every lexeme that ends in front of a comment is read in front of blanks too, but for the opening of a
heredoc. The cases are those of what a lexeme can be. -/
theorem rereads_of_scanned (h : Scanned c (taken ++ (a ++ tail)) l) (hl : l.rest = a ++ tail)
    (htail : OpensComment tail) (hrest : OpensBlank rest)
    (hopen : ¬OpensHeredoc (c :: (taken ++ a)) rest) : Rereads c taken a tail rest l := by
  generalize htext : taken ++ (a ++ tail) = text at h
  cases h with
  | lineComment hc =>
    subst htext
    exact rereads_lineComment hc hl htail
  | word hc =>
    subst htext
    refine ⟨word (c :: (taken ++ a)), ?_, ?_⟩
    · rw [← word_stops (stops_of_opensComment htail), List.cons_append, List.append_assoc]
    · rw [← word_stops (stops_of_opensBlank hrest), List.cons_append, List.append_assoc]
      exact .word hc
  | number hc =>
    subst htext
    refine ⟨number (c :: (taken ++ a)), ?_, ?_⟩
    · rw [← number_stops (stops_of_opensComment htail), List.cons_append, List.append_assoc]
    · rw [← number_stops (stops_of_opensBlank hrest), List.cons_append, List.append_assoc]
      exact .number hc
  | @string _ _ out _ hq hs =>
    -- What is closed by a mark of its own does not depend on what stands behind that.
    obtain rfl := hl
    obtain ⟨front, rfl, hfront⟩ := exists_front_of_stringBody hs
    have hcut : taken ++ (a ++ tail) = front ++ [c] ++ (a ++ tail) := by
      rw [htext, List.append_assoc, List.singleton_append]
    obtain rfl := List.append_cancel_right hcut
    refine ⟨⟨.str, String.ofList out, none, some c, a⟩, rfl, .string hq ?_⟩
    rw [List.append_assoc, List.singleton_append]
    exact hfront _
  | @blockComment cs inner _ hs =>
    obtain rfl := hl
    obtain ⟨front, rfl, hfront⟩ := exists_front_of_closeComment hs
    have hcut : taken ++ (a ++ tail) = '*' :: (front ++ ['/']) ++ (a ++ tail) := by
      rw [htext, List.cons_append, List.append_assoc, List.singleton_append]
    obtain rfl := List.append_cancel_right hcut
    refine ⟨plain .comment ('/' :: '*' :: inner) a, rfl, ?_⟩
    rw [List.cons_append, List.append_assoc, List.singleton_append]
    exact .blockComment (hfront _)
  | @reference cs inner _ hs =>
    obtain rfl := hl
    obtain rfl := append_of_closeBraces hs
    have hcut : taken ++ (a ++ tail) = '{' :: (inner ++ ['}']) ++ (a ++ tail) := by
      rw [htext, List.cons_append, List.append_assoc, List.singleton_append]
    obtain rfl := List.append_cancel_right hcut
    refine ⟨plain .envRef (trimChars inner) a, rfl, ?_⟩
    rw [List.cons_append]
    exact .reference (closeBraces_append (fitsReference_of_closeBraces hs) (a ++ rest))
  | heredoc ht hs => exact rereads_heredoc htext ht hs hl htail
  | mark hm h =>
    subst htext
    exact rereads_mark hm h hl hrest hopen

/-- **What is read in front of a comment is read in front of a blank character.** Only a heredoc could take
the blank character for a part of it, and that is excluded. -/
theorem scan_of_comment (h : scan c (taken ++ (a ++ tail)) = .ok l) (hl : l.rest = a ++ tail)
    (htail : OpensComment tail) (hrest : OpensBlank rest)
    (hopen : ¬OpensHeredoc (c :: (taken ++ a)) rest) :
    scan c (taken ++ (a ++ rest)) = .ok { l with rest := a ++ rest } := by
  obtain ⟨l₀, rfl, hscanned⟩ := rereads_of_scanned (scan_ok_iff.1 h) hl htail hrest hopen
  obtain rfl : l₀.rest = a := List.append_cancel_right hl
  exact scan_ok_iff.2 hscanned

/-! ## 2. Comments -/

/-- A comment begins with one of its marks. -/
theorem opensComment_of_scan (h : scan c rest = .ok l) (hk : l.kind = .comment) :
    OpensComment (c :: rest) := by
  cases scan_ok_iff.1 h with
  | lineComment hc =>
    rcases hc with rfl | ⟨rfl, ds, rfl⟩
    · exact ⟨rest, .inl rfl⟩
    · exact ⟨ds, .inr (.inl rfl)⟩
  | @blockComment cs => exact ⟨cs, .inr (.inr rfl)⟩
  | word => exact absurd hk (wordKind_ne _).1
  | number | string | reference => cases hk
  | heredoc _ hs => cases (kind_of_heredoc hs).symm.trans hk
  | mark _ hm => exact absurd hk (kind_of_mark hm).1

/-- A comment without a mark at its end is over at the end of its line. -/
theorem lineComment_of_scan (h : scan c (taken ++ l.rest) = .ok l) (hk : l.kind = .comment)
    (hopen : ¬['/', '*'] <+: c :: taken) :
    '\n' ∉ c :: taken ∧ ∀ d ∈ l.rest.head?, d = '\n' := by
  have hscanned := scan_ok_iff.1 h
  generalize htext : taken ++ l.rest = text at hscanned
  cases hscanned with
  | lineComment hc =>
    have hrest : (lineComment (c :: text)).rest = (c :: text).dropWhile (· != '\n') := rfl
    have htaken : c :: taken = (c :: text).takeWhile (· != '\n') := by
      refine List.append_cancel_right (?_ : _ ++ (lineComment (c :: text)).rest = _ ++ _)
      rw [List.cons_append, htext, hrest, List.takeWhile_append_dropWhile]
    constructor
    · rw [htaken]
      intro hm
      exact absurd (List.mem_takeWhile_imp hm) (by simp)
    · intro d hd
      rw [hrest] at hd
      have hhead := List.head?_dropWhile_not (· != '\n') (c :: text)
      rw [Option.mem_def.1 hd] at hhead
      simpa using hhead
  | @blockComment cs inner rest hs =>
    refine absurd ⟨inner, ?_⟩ hopen
    have hcut : taken ++ rest = '*' :: inner ++ rest := by
      rw [List.cons_append, ← append_of_closeComment hs]
      exact htext
    rw [List.append_cancel_right hcut]
    rfl
  | word => exact absurd hk (wordKind_ne _).1
  | number | string | reference => cases hk
  | heredoc _ hs => cases (kind_of_heredoc hs).symm.trans hk
  | mark _ hm => exact absurd hk (kind_of_mark hm).1

end Lexeme

/-! ## 3. Texts -/

namespace Token

theorem Listed.listFrom {p : Position} {cs : List Char} {ts : List Token} (h : Listed p cs ts) :
    listFrom p cs = .ok ts := by
  induction h with
  | nil p => exact listFrom_nil p
  | gap hc _ ih => rw [listFrom_gap hc, ih]
  | lexeme hc hl _ ih =>
    rw [listFrom_lexeme hc hl rfl, ih]
    rfl

/-- No token stands above the place at which the text begins. -/
theorem Listed.line_le {p : Position} {cs : List Char} {ts : List Token} (h : Listed p cs ts) :
    ∀ t ∈ ts, p.line ≤ t.pos.line := by
  induction h with
  | nil p =>
    intro t ht
    rw [List.mem_singleton.1 ht]
    exact Nat.le_refl _
  | @gap p c _ _ _ _ ih =>
    exact fun t ht => Nat.le_trans (Position.line_le_advance p [c]) (ih t ht)
  | @lexeme p c taken l _ _ _ _ ih =>
    intro t ht
    rcases List.mem_cons.1 ht with rfl | ht
    · exact Nat.le_refl _
    · exact Nat.le_trans (Position.line_le_advance p (c :: taken)) (ih t ht)

/-- The text in front of a comment is cut in the same way in front of a blank character. -/
theorem Listed.cuts_of_comment {p : Position} {cs : List Char} {front back : List Token}
    {t : Token} (h : Listed p cs (front ++ t :: back)) (hk : t.kind = .comment) :
    ∃ a c taken l, cs = a ++ c :: (taken ++ l.rest) ∧
      Lexeme.scan c (taken ++ l.rest) = .ok l ∧ t = ofLexeme (p.advance a) l ∧
      Listed (p.advance (a ++ c :: taken)) l.rest back ∧
      Cuts (fun rest => OpensBlank rest ∧ ¬OpensHeredoc a rest) p a front := by
  generalize hts : front ++ t :: back = ts at h
  -- By induction on the text: what is in front of the comment loses one gap or one lexeme.
  induction h generalizing front with
  | nil p =>
    have hmem : t ∈ front ++ t :: back := by simp
    rw [hts, List.mem_singleton] at hmem
    subst hmem
    cases hk
  | @gap p c cs ts hc _ ih =>
    obtain ⟨a, d, taken, l, rfl, hl, rfl, hback, hcuts⟩ := ih hts
    refine ⟨c :: a, d, taken, l, rfl, hl, rfl, hback, ?_⟩
    have hgap : Cuts Anything p [c] [] := cuts_gap (List.forall_mem_singleton.2 hc)
    refine hgap.append (hcuts.mono ?_) fun _ _ => anything _
    exact fun rest hrest => ⟨hrest.1, fun hopen => hrest.2 (hopen.append [c])⟩
  | @lexeme p c taken l ts hc hl htail ih =>
    cases front with
    | nil =>
      obtain ⟨rfl, rfl⟩ := List.cons.inj hts
      exact ⟨[], c, taken, l, rfl, hl, rfl, htail, cuts_nil⟩
    | cons f front =>
      obtain ⟨rfl, hothers⟩ := List.cons.inj hts
      obtain ⟨a, d, taken₁, l₁, hrest, hl₁, rfl, hback, hcuts⟩ := ih hothers
      have hcomment := Lexeme.opensComment_of_scan hl₁ hk
      refine ⟨c :: (taken ++ a), d, taken₁, l₁, ?_, hl₁, ?_, ?_, ?_⟩
      · rw [hrest, List.cons_append, List.append_assoc]
      · rw [← List.cons_append, Position.advance_append]
      · rw [← List.cons_append, List.append_assoc, Position.advance_append]
        exact hback
      · -- The first lexeme stays, because the comment behind it is replaced by a blank.
        have hlexeme : Cuts (fun rest => ∃ more, rest = a ++ more ∧ OpensBlank more ∧
            ¬OpensHeredoc (c :: (taken ++ a)) more) p (c :: taken) [ofLexeme p l] := by
          refine cuts_lexeme hc ?_
          rintro _ ⟨more, rfl, hblank, hopen⟩
          rw [hrest] at hl
          exact Lexeme.scan_of_comment hl hrest hcomment hblank hopen
        refine hlexeme.append (hcuts.mono ?_) ?_
        · exact fun rest hrest => ⟨hrest.1, fun hopen => hrest.2 (hopen.append (c :: taken))⟩
        · exact fun rest hrest => ⟨rest, rfl, hrest⟩

/-- A text that stands behind others is cut as it is on its own, moved. -/
theorem listFrom_behind_iff {a cs : List Char} {ts : List Token} :
    listFrom (Position.behind a) cs = .ok ts ↔
      ∃ base, list cs = .ok base ∧ ts = base.map (moved (.upTo (Position.behind a))) := by
  have hplace : Position.start.moved (.upTo (Position.behind a)) = Position.behind a :=
    Position.start_moved_upTo (Nat.le_add_right 1 _) (Nat.le_add_right 1 _)
  have hmoved := listFrom_moved (.upTo (Position.behind a)) (p := .start) (Nat.le_refl 1) cs
  rw [hplace] at hmoved
  rw [hmoved, ← list]
  cases list cs with
  | error m => simp [Except.map, Except.mapError]
  | ok base => simp [Except.map, Except.mapError, eq_comm]

end Token

/-- What a comment in a span is replaced by: a blank if a mark of its own closes it, and otherwise a
line end. -/
def Span.blank (s : Span) (cs : List Char) : Char :=
  if ['/', '*'] <+: s.text cs then ' ' else '\n'

/-- The text with the comment in a span replaced. -/
def Span.blanked (s : Span) (cs : List Char) : List Char :=
  cs.take s.start ++ s.blank cs :: cs.drop s.stop

/-- With the comment in a span replaced a heredoc begins in front of it. -/
def Span.OpensHeredoc (s : Span) (cs : List Char) : Prop :=
  BlockConfig.OpensHeredoc (cs.take s.start) (s.blank cs :: cs.drop s.stop)

namespace Token

variable {cs : List Char} {front back : List Token} {t : Token} {s : Span}

/-- The text around a comment. -/
theorem exists_text_of_comment (h : list cs = .ok (front ++ t :: back)) (hk : t.kind = .comment)
    (hs : t.ReadFrom cs s) : ∃ c taken l, s.text cs = c :: taken ∧ cs.drop s.stop = l.rest ∧
      Lexeme.scan c (taken ++ l.rest) = .ok l ∧ l.kind = .comment ∧
      Listed (Position.behind (cs.take s.start ++ c :: taken)) l.rest back ∧
      Cuts (fun rest => OpensBlank rest ∧ ¬OpensHeredoc (cs.take s.start) rest) .start
        (cs.take s.start) front := by
  obtain ⟨a, c, taken, l, hcs, hl, rfl, hback, hcuts⟩ := (listed_of_listFrom h).cuts_of_comment hk
  -- A token has only one place, so it is the span in which the comment stands.
  have ha : a = cs.take s.start := by
    refine Position.eq_of_behind ⟨_, hcs.symm⟩ (List.take_prefix _ _) ?_
    rw [← Position.start_advance]
    exact hs.position
  have hdrop : cs.drop s.start = c :: (taken ++ l.rest) := by
    have happend := List.take_append_drop s.start cs
    rw [← ha] at happend
    exact List.append_cancel_left (happend.trans hcs)
  obtain ⟨d, body, l', hbody, hl', hrest, hofLexeme⟩ := hs.read
  obtain ⟨rfl, rfl⟩ := List.cons.inj (hdrop.symm.trans hbody)
  obtain rfl := Except.ok.inj (hl.symm.trans hl')
  refine ⟨c, taken, l, ?_, hrest.symm, hl, hk, ?_, ha ▸ hcuts⟩
  · have hlength : (c :: taken).length = s.stop - s.start := by
      have h1 := congrArg List.length hdrop
      have h2 := congrArg List.length hrest
      have h3 := hs.inside
      simp only [List.length_drop, List.length_cons, List.length_append] at h1 h2 ⊢
      omega
    rw [Span.text, hdrop, ← hlength, ← List.cons_append, List.take_left]
  · rw [Position.start_advance, ha] at hback
    exact hback

/-- **A text is cut into the same tokens with a blank character in place of a comment:** the comment
goes, and the tokens behind it are moved. Those of them on the line of a token in front of it stay
on that line. -/
theorem list_blanked (h : list cs = .ok (front ++ t :: back)) (hk : t.kind = .comment)
    (hs : t.ReadFrom cs s) (hline : ['/', '*'] <+: s.text cs → '\n' ∉ s.text cs)
    (hopen : ¬s.OpensHeredoc cs) :
    ∃ base m m', back = base.map (moved m) ∧
      list (s.blanked cs) = .ok (front ++ base.map (moved m')) ∧
      (∃ init last, base = init ++ [last] ∧ last.kind = .eof) ∧
      ∀ t ∈ front, ∀ u ∈ base.head?, u.kind ≠ .eof →
        ((u.moved m).pos.line = t.pos.line ↔ (u.moved m').pos.line = t.pos.line) := by
  obtain ⟨c, taken, l, htext, hrest, hl, hkind, hback, hcuts⟩ := exists_text_of_comment h hk hs
  obtain ⟨base, hbase, rfl⟩ := listFrom_behind_iff.1 hback.listFrom
  have hgap : isGap (s.blank cs) = true := by
    unfold Span.blank
    split <;> rfl
  refine ⟨base, _, .upTo (Position.behind (cs.take s.start ++ [s.blank cs])), rfl, ?_, ?_, ?_⟩
  · have hcut := hcuts.cut (s.blank cs :: cs.drop s.stop)
      ⟨⟨_, _, rfl, isBlank_of_isGap hgap⟩, hopen⟩
    have hnext : (Position.behind (cs.take s.start)).next (s.blank cs) =
        Position.behind (cs.take s.start ++ [s.blank cs]) := Position.behind_advance _ [_]
    rw [list, Span.blanked, hcut, listFrom_gap hgap, Position.start_advance, hnext, hrest,
      listFrom_behind_iff.2 ⟨base, hbase, rfl⟩]
    rfl
  · obtain ⟨init, last, rfl, hlast, -⟩ := ended_of_list hbase
    exact ⟨init, last, rfl, hlast⟩
  · intro f hf u hu hne
    have hfront := (hcuts.lines f hf).2
    rw [Position.start_advance] at hfront
    have hcount : List.count '\n' (c :: taken) = 0 := by
      refine List.count_eq_zero.2 ?_
      by_cases hopens : ['/', '*'] <+: s.text cs
      · exact htext ▸ hline hopens
      · exact (Lexeme.lineComment_of_scan hl hkind (htext ▸ hopens)).1
    simp only [pos_moved, Position.line_moved, Displacement.upTo, Position.behind,
      List.count_append, hcount, Span.blank] at hfront ⊢
    split
    next => simp
    next hopens =>
      -- What is behind the line end stands below everything in front of the comment.
      have hbelow : 2 ≤ u.pos.line := by
        have hhead := (Lexeme.lineComment_of_scan hl hkind (htext ▸ hopens)).2
        have hmem := List.mem_of_mem_head? hu
        cases hr : l.rest with
        | nil =>
          rw [hr, list, listFrom_nil] at hbase
          obtain rfl := Except.ok.inj hbase
          rw [List.mem_singleton.1 hmem] at hne
          exact absurd rfl hne
        | cons d ds =>
          obtain rfl : d = '\n' := hhead d (by rw [hr]; rfl)
          rw [hr, list, listFrom_gap rfl] at hbase
          exact (listed_of_listFrom hbase).line_le u hmem
      have hend : List.count '\n' ['\n'] = 1 := rfl
      omega

end Token

end BlockConfig
