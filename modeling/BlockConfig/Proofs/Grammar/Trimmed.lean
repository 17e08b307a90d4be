import BlockConfig.Proofs.Grammar.Transfer
import BlockConfig.Proofs.Lexing.Trimming

/-!
An expression without the blanks around it.

The tokens of a text and those of the trimmed text meet at a seam: in front of it they are the same,
and behind it stands the end of input, perhaps with a comment in front of it. An expression never
ends with a comment, so it is read in front of the seam, and from the trimmed text the same tree is
read (`Node.parseExpression_trim`).
-/

set_option autoImplicit false

namespace BlockConfig

open Cursor Rule Text

namespace Seam

variable {tail tail' : List Token} {m : Displacement}

/-- Where a text ends whose tokens stood further on before it was trimmed. -/
def trimming (m : Displacement) (tail tail' : List Token) : Seam :=
  ⟨.none, m, tail, tail'⟩

/-- At the end of a text the seam is clean, with or without a last comment. -/
theorem clean_trimming (h : Token.Closing tail tail') : (trimming m tail tail').Clean where
  ended := by
    cases h with
    | @eof t _ h _ => exact ⟨⟨t, rfl, h⟩, fun _ _ => trivial⟩
    | @comment _ u _ _ _ hu _ _ => exact ⟨⟨u, rfl, hu⟩, fun _ _ => trivial⟩
  left := by
    cases h with
    | eof h _ =>
      rintro t ⟨⟩
      exact .inl h
    | comment ht _ _ _ =>
      rintro t ⟨⟩
      exact .inr ht
  right := by
    cases h with
    | eof _ h' => exact ⟨_, _, rfl, by rw [h']; rfl⟩
    | comment _ _ ht' _ => exact ⟨_, _, rfl, by rw [ht']; rfl⟩
  elseLeft := by
    cases h with
    | eof h _ => simp [trimming, Rule.elseAhead, h]
    | comment ht hu _ _ => simp [trimming, Rule.elseAhead, ht, hu]
  elseRight := by
    cases h with
    | eof _ h' => simp [trimming, Rule.elseAhead, h']
    | comment _ _ ht' hu' => simp [trimming, Rule.elseAhead, ht', hu']

/-- The tokens of a text and those of its trimmed form face each other up to the last comment. -/
theorem facing_trimming (h : Token.Closing tail tail') (init : List Token) :
    (trimming m tail tail').Facing (init.map (Token.moved m) ++ tail) (init ++ tail') := by
  refine facing_of_forall₂ (List.forall₂_map_left_iff.2 (List.forall₂_same.2 fun t _ => ?_))
    fun t _ => ?_
  · exact Token.moved_none _
  · -- Neither a comment nor the end of input goes on with anything.
    cases h with
    | eof _ h' =>
      refine ⟨?_, fun _ => rfl⟩
      rintro u ⟨⟩ hname
      simp [Token.isName, h'] at hname
    | comment _ _ ht' _ =>
      refine ⟨?_, fun _ => by simp [trimming, Rule.targetList?, ht']⟩
      rintro u ⟨⟩ hname
      simp [Token.isName, ht'] at hname

/-- The cursors at the beginning of the two texts. -/
theorem faces_trimming (h : Token.Closing tail tail') {init : List Token}
    (hl : ∀ t ∈ init.map (Token.moved m) ++ tail, 1 ≤ t.pos.line)
    (hl' : ∀ t ∈ init ++ tail', 1 ≤ t.pos.line) : (trimming m tail tail').Faces
      (.ofTokens (init.map (Token.moved m) ++ tail)) (.ofTokens (init ++ tail')) where
  rests := facing_trimming h init
  operator := by
    rw [operator?_ofTokens hl, operator?_ofTokens hl']
    cases init with
    | nil =>
      cases h with
      | eof h h' => simp [Cursor.peekAt, Cursor.ofTokens, h, h']
      | comment ht _ ht' _ => simp [Cursor.peekAt, Cursor.ofTokens, ht, ht']
    | cons t ts => rfl

/-- Where nothing but comments is left on one side, nothing else is left on the other. -/
theorem Facing.skipComments_eof {s : Seam} (S : s.Parted)
    (hright : ∀ line, ((Cursor.mk line s.right).skipComments.peekAt 0).kind = .eof)
    {us us' : List Token} (h : s.Facing us us') {line : Nat} (line' : Nat)
    (hk : ((Cursor.mk line us).skipComments.peekAt 0).kind = .eof) :
    ((Cursor.mk line' us').skipComments.peekAt 0).kind = .eof := by
  induction h generalizing line line' with
  | seam => exact hright line'
  | @cons t t' us us' alike _ rest ih =>
    obtain ⟨hus, hus'⟩ := rest.ne_nil S
    obtain ⟨u, vs, rfl⟩ := List.exists_cons_of_ne_nil hus
    obtain ⟨u', vs', rfl⟩ := List.exists_cons_of_ne_nil hus'
    simp only [Cursor.skipComments, Cursor.skipKinds, ← alike.kind] at hk ⊢
    split at hk
    next hc =>
      rw [if_pos hc]
      exact ih _ hk
    next hc =>
      rw [if_neg hc]
      exact alike.kind ▸ hk

end Seam

namespace Node

/-- **An expression stays what it is when its text is trimmed.** Its positions are further to the
front then, by the blanks that were dropped there. -/
theorem parseExpression_trim {e file : String} {node : Node}
    (h : parseExpression e file = .ok node) :
    ∃ node', parseExpression (Text.trim e) file = .ok node' ∧
      node = node'.mapPos
        (Position.moved (.upTo (Position.start.advance (e.toList.takeWhile isBlank)))) := by
  obtain ⟨ts, c, hts, hgives⟩ := readText_ok_iff.1 h
  obtain ⟨init, tail, tail', htrim, rfl, hclosing⟩ := Token.list_trimChars hts
  generalize Displacement.upTo (Position.start.advance (e.toList.takeWhile isBlank)) = m at *
  obtain ⟨d, hexpr, heof, rfl⟩ := (gives_loneExpression _ _ _ _).1 hgives
  obtain ⟨-, -, -, -, -, hl⟩ := Token.ended_of_list hts
  obtain ⟨-, -, -, -, -, hl'⟩ := Token.ended_of_list htrim
  have S : (Seam.trimming m tail tail').Parted := (Seam.clean_trimming hclosing).parted
  have hfaces := Seam.faces_trimming hclosing hl hl'
  -- The last token that is read is no comment, so it stands in front of the seam.
  have room : tail.length ≤ d.rest.length := by
    have hreads := (forward _).expression (hfaces.ended S) hexpr
    obtain ⟨x, xs, hx⟩ := List.exists_cons_of_ne_nil hreads.ended.ne_nil
    cases hclosing with
    | eof => simp [hx]
    | @comment t u _ _ ht =>
      obtain ⟨front, last, hrest, hlast⟩ := hreads.read
      have hsplit : init.map (Token.moved m) ++ [t, u] = front ++ last :: d.rest := hrest
      rw [hx] at hsplit ⊢
      cases xs with
      | cons y ys => simp
      | nil =>
        obtain ⟨-, h⟩ := List.append_inj' hsplit rfl
        exact absurd ((List.cons.inj h).1 ▸ ht) hlast
  -- The two lists are as long as each other.
  have hbudget : budget (init.map (Token.moved m) ++ tail) = budget (init ++ tail') := by
    have hlength : tail.length = tail'.length := by cases hclosing <;> rfl
    simp only [budget, List.length_append, List.length_map, hlength]
  obtain ⟨node', d', hexpr', hsame, hd⟩ :=
    (Seam.transferred S _).expression hfaces hexpr room _ (Nat.le_of_eq hbudget)
  have heof' : (d'.skipComments.peekAt 0).kind = .eof := by
    refine hd.rests.skipComments_eof S (fun line => ?_) d'.line heof
    cases hclosing with
    | eof _ h' => exact h'
    | comment _ _ ht' hu' =>
      simpa [Seam.trimming, Cursor.skipComments, Cursor.skipKinds, Cursor.peekAt, ht'] using hu'
  refine ⟨node', readText_ok_iff.2 ⟨_, _, ?_, (gives_loneExpression _ _ _ _).2
    ⟨d', hexpr', heof', rfl⟩⟩, ?_⟩
  · rw [Text.trim, String.toList_ofList]
    exact htrim
  · have hid : Position.moved .none = id := funext Position.moved_none
    rw [Seam.SameTree, Seam.trimming, hid, mapPos_id] at hsame
    exact hsame

end Node

end BlockConfig
