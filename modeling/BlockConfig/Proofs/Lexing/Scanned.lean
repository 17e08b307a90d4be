import BlockConfig.Proofs.Lexing.Lawful

/-!
Which reader a lexeme comes from.

`Scanned c cs l` lists the readers of the lexer, each with what it was asked and what it answered;
`scan_ok_iff` says that this is all that `scan` can do. A fact about every lexeme is then one short
case for each reader, and to show that a longer or a shorter text begins with the same lexeme it is
enough to ask the same reader again.
-/

set_option autoImplicit false

namespace BlockConfig

open Text

namespace Lexeme

/-! ## 1. The readers -/

/-- Nothing longer than an operator begins here. -/
structure MarkAt (c : Char) (cs : List Char) : Prop where
  sharp : c ≠ '#'
  name : isNameStart c = false
  digit : c.isDigit = false
  quote : isQuote c = false
  dashes : ∀ ds, c = '-' → cs ≠ '-' :: ds
  comment : ∀ ds, c = '/' → cs ≠ '*' :: ds
  hole : ∀ ds, c = '$' → cs ≠ '{' :: ds
  heredoc : ∀ ds, c = '<' → cs = '<' :: ds → heredocTag? ds = none

/-- The lexeme `l` comes from one of the readers, asked at a text that begins with `c`. -/
inductive Scanned : Char → List Char → Lexeme → Prop
  | lineComment {c : Char} {cs : List Char} (h : c = '#' ∨ c = '-' ∧ ∃ ds, cs = '-' :: ds) :
      Scanned c cs (lineComment (c :: cs))
  | word {c : Char} {cs : List Char} (h : isNameStart c = true) : Scanned c cs (word (c :: cs))
  | number {c : Char} {cs : List Char} (h : c.isDigit = true) : Scanned c cs (number (c :: cs))
  | string {q : Char} {cs out rest : List Char} (hq : isQuote q = true)
      (h : stringBody q 0 cs = some (out, rest)) :
      Scanned q cs ⟨.str, String.ofList out, none, some q, rest⟩
  | blockComment {cs inner rest : List Char} (h : closeComment cs = some (inner, rest)) :
      Scanned '/' ('*' :: cs) (plain .comment ('/' :: '*' :: inner) rest)
  | reference {cs inner rest : List Char} (h : closeBraces 0 cs = some (inner, rest)) :
      Scanned '$' ('{' :: cs) (plain .envRef (trimChars inner) rest)
  | heredoc {cs tag body : List Char} {l : Lexeme} (ht : heredocTag? cs = some (tag, body))
      (h : heredoc tag body = .ok l) : Scanned '<' ('<' :: cs) l
  | mark {c : Char} {cs : List Char} {l : Lexeme} (hc : MarkAt c cs) (h : mark c cs = .ok l) :
      Scanned c cs l

/-- What is read at a character is one of the forms of `Scanned`, which are told apart by that character and
sometimes by the one behind it. The proof follows the program from question to question and keeps the
answers, since each form says which of the earlier ones it is not. -/
theorem scanned_of_scan {c : Char} {cs : List Char} {l : Lexeme} (h : scan c cs = .ok l) :
    Scanned c cs l := by
  unfold scan at h
  split at h
  next hc =>
    obtain rfl := Except.ok.inj h
    exact .lineComment (.inl hc)
  next hsharp =>
  split at h
  next hc =>
    obtain rfl := Except.ok.inj h
    exact .word hc
  next hname =>
  split at h
  next hc =>
    obtain rfl := Except.ok.inj h
    exact .number hc
  next hdigit =>
  split at h
  next hq =>
    unfold Lexeme.string at h
    split at h
    · simp at h
    next hs =>
      obtain rfl := Except.ok.inj h
      exact .string hq hs
  next hquote =>
  -- What is left are the four pairs of marks, and the operators behind them.
  have mark : ∀ {c : Char} {cs : List Char}, c ≠ '#' → ¬isNameStart c = true →
      ¬c.isDigit = true → ¬isQuote c = true → (∀ ds, c = '-' → cs ≠ '-' :: ds) →
      (∀ ds, c = '/' → cs ≠ '*' :: ds) → (∀ ds, c = '$' → cs ≠ '{' :: ds) →
      (∀ ds, c = '<' → cs = '<' :: ds → heredocTag? ds = none) → Lexeme.mark c cs = .ok l →
      Scanned c cs l := by
    intro c cs h1 h2 h3 h4 h5 h6 h7 h8 hm
    exact .mark ⟨h1, by simpa using h2, by simpa using h3, by simpa using h4, h5, h6, h7, h8⟩ hm
  split at h
  next rest =>
    obtain rfl := Except.ok.inj h
    exact .lineComment (.inr ⟨rfl, rest, rfl⟩)
  · unfold Lexeme.blockComment at h
    split at h
    · simp at h
    next hs =>
      obtain rfl := Except.ok.inj h
      exact .blockComment hs
  · unfold Lexeme.reference at h
    split at h
    · simp at h
    next hs =>
      obtain rfl := Except.ok.inj h
      exact .reference hs
  · split at h
    next ht => exact .heredoc ht h
    next ht =>
      refine mark hsharp hname hdigit hquote ?_ ?_ ?_ ?_ h
      · exact fun ds hc => absurd hc (by decide)
      · exact fun ds hc => absurd hc (by decide)
      · exact fun ds hc => absurd hc (by decide)
      · intro ds _ hcs
        rw [← (List.cons.inj hcs).2]
        exact ht
  next h1 h2 h3 h4 =>
    refine mark hsharp hname hdigit hquote (fun ds hc hcs => h1 ds hc hcs)
      (fun ds hc hcs => h2 ds hc hcs) (fun ds hc hcs => h3 ds hc hcs)
      (fun ds hc hcs => absurd hcs (h4 ds hc)) h

theorem not_isNameStart_sharp {c : Char} (h : isNameStart c = true) : c ≠ '#' := by
  rintro rfl
  exact absurd h (by decide)

theorem not_isDigit_sharp {c : Char} (h : c.isDigit = true) : c ≠ '#' := by
  rintro rfl
  exact absurd h (by decide)

/-- At a character that begins nothing else, a mark is read. -/
theorem MarkAt.scan_eq {c : Char} {cs : List Char} (h : MarkAt c cs) :
    scan c cs = Lexeme.mark c cs := by
  unfold scan
  rw [if_neg h.sharp, if_neg (by simp [h.name]), if_neg (by simp [h.digit]),
    if_neg (by simp [h.quote])]
  split
  next ds => exact absurd rfl (h.dashes ds rfl)
  next ds => exact absurd rfl (h.comment ds rfl)
  next ds => exact absurd rfl (h.hole ds rfl)
  next ds => rw [h.heredoc ds rfl rfl]
  next => rfl

/-- Conversely, each of the forms is read in this way, so they describe the program completely. -/
theorem Scanned.scan_eq {c : Char} {cs : List Char} {l : Lexeme} (h : Scanned c cs l) :
    scan c cs = .ok l := by
  cases h with
  | lineComment h =>
    rcases h with rfl | ⟨rfl, ds, rfl⟩ <;> rfl
  | word h =>
    unfold scan
    rw [if_neg (not_isNameStart_sharp h), if_pos h]
  | number h =>
    unfold scan
    rw [if_neg (not_isDigit_sharp h), if_neg (by simp [not_isNameStart_of_isDigit h]), if_pos h]
  | string hq h => rw [scan_quote hq, Lexeme.string, h]
  | @blockComment cs inner rest h =>
    have hscan : scan '/' ('*' :: cs) = Lexeme.blockComment cs := rfl
    rw [hscan, Lexeme.blockComment, h]
  | @reference cs inner rest h =>
    have hscan : scan '$' ('{' :: cs) = Lexeme.reference cs := rfl
    rw [hscan, Lexeme.reference, h]
  | heredoc ht h =>
    rw [scan_less, ht]
    exact h
  | mark hc h => rw [hc.scan_eq, h]

/-- **What a lexeme can be.** The relation has one constructor for each kind of lexeme, where the scanner
asks its questions one after the other. -/
theorem scan_ok_iff {c : Char} {cs : List Char} {l : Lexeme} :
    scan c cs = .ok l ↔ Scanned c cs l :=
  ⟨scanned_of_scan, Scanned.scan_eq⟩

/-! ## 2. Marks -/

/-- A mark is one character, or two that belong together. -/
theorem mark_ok_iff {c : Char} {cs : List Char} {l : Lexeme} :
    Lexeme.mark c cs = .ok l ↔
      (∃ k, singleKind? c = some k ∧ (∀ d ∈ cs.head?, pairKind? c d = none) ∧ l = plain k [c] cs) ∨
        ∃ d ds k, cs = d :: ds ∧ pairKind? c d = some k ∧ l = plain k [c, d] ds := by
  have comm : ∀ m : Lexeme, (Except.ok m : Except LexFault Lexeme) = .ok l ↔ l = m := by
    intro m
    rw [Except.ok.injEq, eq_comm]
  cases cs with
  | nil => cases hs : singleKind? c <;> simp [Lexeme.mark, hs, comm]
  | cons d ds =>
    cases hp : pairKind? c d with
    | none => cases hs : singleKind? c <;> simp [Lexeme.mark, hs, hp, comm]
    | some k =>
      have hmark : Lexeme.mark c (d :: ds) = .ok (plain k [c, d] ds) := by simp [Lexeme.mark, hp]
      rw [hmark, comm]
      constructor
      · exact fun h => .inr ⟨d, ds, k, rfl, hp, h⟩
      · rintro (⟨_, _, hno, _⟩ | ⟨d', ds', k', he, hk, h⟩)
        · exact absurd (hno d rfl) (by simp [hp])
        · obtain ⟨rfl, rfl⟩ := List.cons.inj he
          obtain rfl := Option.some.inj (hp.symm.trans hk)
          exact h

/-! ## 3. Heredocs -/

/-- A heredoc is the lines up to the first one that closes it. -/
theorem heredoc_ok_iff {tag body : List Char} {l : Lexeme} :
    Lexeme.heredoc tag body = .ok l ↔ ∃ content line after,
      splitOnChar '\n' body = content ++ line :: after ∧
        (∀ x ∈ content, closesHeredoc tag x = false) ∧ closesHeredoc tag line = true ∧
        l = ⟨.heredoc, String.ofList (dropEndWhile (· == '\r') (joinWith ['\n'] content)),
          some (String.ofList tag), none, after.flatMap ('\n' :: ·)⟩ := by
  have hopen : ∀ {x}, (!closesHeredoc tag x) = true ↔ closesHeredoc tag x = false := by simp
  unfold Lexeme.heredoc
  constructor
  · intro h
    simp only at h
    split at h
    next => simp at h
    next line after hdrop =>
      obtain rfl := Except.ok.inj h
      refine ⟨_, line, after, ?_, fun x hx => ?_, ?_, rfl⟩
      · rw [← hdrop, List.takeWhile_append_dropWhile]
      · exact hopen.1 (@List.mem_takeWhile_imp _ (fun x => !closesHeredoc tag x) _ _ hx)
      · have hhead := List.head?_dropWhile_not (fun x => !closesHeredoc tag x)
          (splitOnChar '\n' body)
        rw [hdrop] at hhead
        simpa using hhead
  · rintro ⟨content, line, after, hlines, hcontent, hline, rfl⟩
    have hpos : ∀ x ∈ content, (!closesHeredoc tag x) = true := fun x hx => hopen.2 (hcontent x hx)
    simp [hlines, List.takeWhile_append_of_pos hpos, List.dropWhile_append_of_pos hpos, hline]

/-- Where nothing is left no heredoc is closed. -/
theorem heredoc_nil_ne_ok {tag : List Char} (htag : tag ≠ []) (l : Lexeme) :
    Lexeme.heredoc tag [] ≠ .ok l := by
  obtain ⟨t, ts, rfl⟩ := List.exists_cons_of_ne_nil htag
  have herror : Lexeme.heredoc (t :: ts) [] =
      .error (.unterminatedHeredoc (String.ofList (t :: ts))) := rfl
  rw [herror]
  rintro ⟨⟩

/-- The tag of a heredoc and what is behind its line. -/
theorem exists_line_of_heredocTag? {cs tag body : List Char}
    (h : heredocTag? cs = some (tag, body)) : ∃ line, cs = line ++ '\n' :: body ∧ '\n' ∉ line := by
  unfold heredocTag? at h
  split at h
  next => simp at h
  next c ds =>
    split at h
    next =>
      simp only at h
      split at h
      next => simp at h
      next x ys hdrop =>
        split at h
        next =>
          simp only [Option.some.injEq, Prod.mk.injEq] at h
          obtain ⟨-, rfl⟩ := h
          -- What follows the tag is dropped up to a line feed, so if anything is left it begins with
          -- that.
          obtain rfl : x = '\n' := by
            have hhead := List.head?_dropWhile_not (· != '\n') ((c :: ds).dropWhile isNameRest)
            rw [hdrop] at hhead
            simpa using hhead
          refine ⟨(c :: ds).takeWhile isNameRest ++
            ((c :: ds).dropWhile isNameRest).takeWhile (· != '\n'), ?_, ?_⟩
          · rw [List.append_assoc, ← hdrop, List.takeWhile_append_dropWhile,
              List.takeWhile_append_dropWhile]
          · intro hm
            rcases List.mem_append.1 hm with hm | hm
            · exact Bool.noConfusion (List.mem_takeWhile_imp hm)
            · exact absurd (List.mem_takeWhile_imp hm) (by simp)
        next => simp at h
    next => simp at h

end Lexeme

end BlockConfig
