import BlockConfig.Proofs.Eval.Interpolating
import BlockConfig.Proofs.Eval.Parts
import BlockConfig.Proofs.Inclusion.Outcome
import BlockConfig.Proofs.Lexing.Holes
import BlockConfig.Proofs.RoundTrip.Expression

/-!
Filling the holes of two texts, one behind the other.

A text is cut into its pieces before any of them is evaluated. If all holes of a text are closed and
no hole opens where it meets the next one, the pieces of the two together are the pieces of the
first and those of the second, the two texts at the seam being one (`Piece.split_append`). So what
the whole gives is what the first gives and, behind it, what the second gives in the state that the
first leaves (`Eval.interpolate_append`). What a hole was filled with is never cut into pieces: a
variable whose text has holes of its own puts them into the result as they are.
-/

set_option autoImplicit false

namespace BlockConfig

open Text

/-! ## 1. Pieces -/

namespace Piece

variable {a b cs front rest inner : List Char}

/-- Where the second text follows the first, the sign that opens a hole is not half in one of them
and half in the other. -/
def OpensNone (a b : List Char) : Prop :=
  ¬(a.getLast? = some '$' ∧ b.head? = some '{')

theorem OpensNone.tail {c : Char} (h : OpensNone (c :: a) b) : OpensNone a b := by
  rintro ⟨hlast, hhead⟩
  refine h ⟨?_, hhead⟩
  rw [List.getLast?_cons, hlast]
  rfl

theorem OpensNone.of_suffix (h : OpensNone a b) (hsuffix : rest <:+ a) : OpensNone rest b := by
  obtain ⟨taken, rfl⟩ := hsuffix
  induction taken with
  | nil => exact h
  | cons c taken ih => exact ih h.tail

/-- A hole opens behind the text in front of it. -/
theorem append_of_beforeHole (h : beforeHole cs = (front, some rest)) :
    cs = front ++ '$' :: '{' :: rest := by
  fun_induction beforeHole cs generalizing front rest with
  | case1 => simp at h
  | case2 cs =>
    obtain ⟨rfl, hrest⟩ := Prod.mk.inj h
    rw [Option.some.inj hrest, List.nil_append]
  | case3 c cs hno front' rest' he ih =>
    obtain ⟨rfl, rfl⟩ := Prod.mk.inj h
    rw [ih he, List.cons_append]

/-- The first hole of a text is the first one of any longer text. -/
theorem beforeHole_append_of_some (h : beforeHole a = (front, some rest)) (b : List Char) :
    beforeHole (a ++ b) = (front, some (rest ++ b)) := by
  fun_induction beforeHole a generalizing front rest with
  | case1 => simp at h
  | case2 cs =>
    obtain ⟨rfl, hrest⟩ := Prod.mk.inj h
    rw [Option.some.inj hrest]
    rfl
  | case3 c cs hno front' rest' he ih =>
    obtain ⟨rfl, rfl⟩ := Prod.mk.inj h
    have hno' : ∀ ds, c = '$' → cs ++ b = '{' :: ds → False := by
      rintro ds rfl hds
      cases cs with
      | nil => simp [beforeHole] at he
      | cons x xs => exact hno xs rfl (by rw [(List.cons.inj hds).1])
    rw [List.cons_append, beforeHole.eq_3 _ _ hno', ih he]

/-- A text without a hole goes on to the first hole of what follows, provided that the two do not make the
opening of one where they meet. -/
theorem beforeHole_append_of_none (h : beforeHole a = (front, none)) (hseam : OpensNone a b) :
    front = a ∧ beforeHole (a ++ b) = (a ++ (beforeHole b).1, (beforeHole b).2) := by
  fun_induction beforeHole a generalizing front with
  | case1 => exact ⟨(Prod.mk.inj h).1.symm, rfl⟩
  | case2 cs => simp at h
  | case3 c cs hno front' rest' he ih =>
    obtain ⟨rfl, rfl⟩ := Prod.mk.inj h
    obtain ⟨rfl, happend⟩ := ih he hseam.tail
    have hno' : ∀ ds, c = '$' → front' ++ b = '{' :: ds → False := by
      rintro ds rfl hds
      cases front' with
      | nil => exact hseam ⟨rfl, by rw [← List.nil_append b, hds]; rfl⟩
      | cons x xs => exact hno xs rfl (by rw [(List.cons.inj hds).1])
    refine ⟨rfl, ?_⟩
    rw [List.cons_append, beforeHole.eq_3 _ _ hno', happend, List.cons_append]

/-! The pieces of a text, by what its first hole is like. -/

theorem split_of_none (h : beforeHole cs = (front, none)) : split cs = [text front] := by
  rw [split]
  split
  next front' h' =>
    rw [(Prod.mk.inj (h'.symm.trans h)).1]
  next front' rest' h' => exact absurd (h'.symm.trans h) (by simp)

/-- A hole that is never closed ends the text. -/
theorem split_of_unclosed (h : beforeHole cs = (front, some rest))
    (hrest : Lexeme.closeBraces 0 rest = none) : split cs = [text front, unclosed] := by
  rw [split]
  split
  next front' h' => exact absurd (h'.symm.trans h) (by simp)
  next front' rest' h' =>
    obtain ⟨rfl, hsome⟩ := Prod.mk.inj (h'.symm.trans h)
    obtain rfl := Option.some.inj hsome
    split
    next => rfl
    next inner' rest' h'' => exact absurd (h''.symm.trans hrest) (by simp)

/-- A hole that is closed is one piece, and what follows it is split in turn. -/
theorem split_of_hole {after : List Char} (h : beforeHole cs = (front, some rest))
    (hrest : Lexeme.closeBraces 0 rest = some (inner, after)) :
    split cs = text front :: hole (trimChars inner) :: split after := by
  rw [split]
  split
  next front' h' => exact absurd (h'.symm.trans h) (by simp)
  next front' rest' h' =>
    obtain ⟨rfl, hsome⟩ := Prod.mk.inj (h'.symm.trans h)
    obtain rfl := Option.some.inj hsome
    split
    next h'' => exact absurd (h''.symm.trans hrest) (by simp)
    next inner' after' h'' =>
      obtain ⟨rfl, rfl⟩ := Prod.mk.inj (Option.some.inj (h''.symm.trans hrest))
      rfl

/-- A text without a hole becomes a part of the first piece of the text behind it. -/
theorem split_append_of_none (h : beforeHole a = (front, none)) (hseam : OpensNone a b) :
    ∃ m pieces, split b = text m :: pieces ∧ split (a ++ b) = text (a ++ m) :: pieces := by
  obtain ⟨-, happend⟩ := beforeHole_append_of_none h hseam
  cases hb : beforeHole b with
  | mk m o =>
    rw [hb] at happend
    cases o with
    | none => exact ⟨m, [], split_of_none hb, split_of_none happend⟩
    | some rest =>
      cases hrest : Lexeme.closeBraces 0 rest with
      | none => exact ⟨m, _, split_of_unclosed hb hrest, split_of_unclosed happend hrest⟩
      | some closed => exact ⟨m, _, split_of_hole hb hrest, split_of_hole happend hrest⟩

/-- **The pieces of two texts, one behind the other,** are those of the first and those of the
second, if the holes of the first are closed and none opens at the seam. -/
theorem split_append (ha : Lexeme.closesHoles 0 a = true) (hseam : OpensNone a b) :
    ∃ as l m bs, split a = as ++ [text l] ∧ split b = text m :: bs ∧
      split (a ++ b) = as ++ text (l ++ m) :: bs := by
  have hclosed := (Lexeme.closesHoles_zero a).1 ha
  fun_induction split a with
  | case1 cs front h =>
    obtain ⟨m, bs, hb, happend⟩ := split_append_of_none h hseam
    rw [(beforeHole_append_of_none h hseam).1]
    exact ⟨[], cs, m, bs, rfl, hb, happend⟩
  | case2 cs front rest h hno =>
    obtain ⟨inner, after, hsome, -⟩ := (Lexeme.closesHoles_succ 0 rest).1 (hclosed rest (by rw [h]))
    exact absurd (hno.symm.trans hsome) (by simp)
  | case3 cs front rest h inner after hrest ih =>
    have hafter : Lexeme.closesHoles 0 after = true := by
      obtain ⟨_, _, hsome, hholes⟩ :=
        (Lexeme.closesHoles_succ 0 rest).1 (hclosed rest (by rw [h]))
      obtain ⟨rfl, rfl⟩ := Prod.mk.inj (Option.some.inj (hsome.symm.trans hrest))
      exact hholes
    have hsuffix : after <:+ cs := by
      refine ⟨front ++ '$' :: '{' :: inner ++ ['}'], ?_⟩
      rw [append_of_beforeHole h, Lexeme.append_of_closeBraces hrest]
      simp
    obtain ⟨as, l, m, bs, hsplit, hb, happend⟩ :=
      ih hafter (hseam.of_suffix hsuffix) ((Lexeme.closesHoles_zero after).1 hafter)
    refine ⟨text front :: hole (trimChars inner) :: as, l, m, bs, by rw [hsplit]; rfl, hb, ?_⟩
    rw [split_of_hole (beforeHole_append_of_some h b) (Lexeme.closeBraces_append hrest b), happend]
    rfl

end Piece

/-! ## 2. Pieces one after another -/

namespace Eval

variable {src : Source} {hooks : Hooks} {whole whole' : String} {pieces : List Piece}

/-- Pieces can be joined in two goes, from left to right. The state that the first go has left is that in
which the second begins. -/
theorem joinPieces_append (as bs : List Piece) :
    joinPieces src hooks whole (as ++ bs) = do
      let x ← joinPieces src hooks whole as
      return x ++ (← joinPieces src hooks whole bs) := by
  induction as with
  | nil => simp only [List.nil_append, joinPieces, pure_bind, String.empty_append, bind_pure]
  | cons piece as ih =>
    cases piece with
    | text cs =>
      simp only [List.cons_append, joinPieces, ih, bind_assoc, pure_bind, String.append_assoc]
    | hole inner =>
      simp only [List.cons_append, joinPieces, ih, bind_assoc, pure_bind, String.append_assoc]
    | unclosed => rfl

/-- The whole text is only named in the error about a hole that nothing closes. -/
theorem joinPieces_eq_of_closed (h : Piece.unclosed ∉ pieces) :
    joinPieces src hooks whole pieces = joinPieces src hooks whole' pieces := by
  induction pieces with
  | nil => rfl
  | cons piece pieces ih =>
    obtain ⟨hpiece, hpieces⟩ := not_or.1 (mt List.mem_cons.2 h)
    cases piece with
    | text cs => simp only [joinPieces, ih hpieces]
    | hole inner => simp only [joinPieces, ih hpieces]
    | unclosed => exact absurd rfl hpiece

/-- One evaluation after another succeeds if both do. -/
theorem bind_eq_ok_iff {α β : Type} {x : Eval α} {f : α → Eval β} {s s' : State} {b : β} :
    (x >>= f) s = (.ok b, s') ↔ ∃ a t, x s = (.ok a, t) ∧ f a t = (.ok b, s') := by
  constructor
  · exact bind_eq_ok
  · rintro ⟨a, t, hx, hf⟩
    rw [bind_apply, hx]
    exact hf

/-- So it makes no difference to what pieces give. -/
theorem joinPieces_ok {r : String} {s s' : State}
    (h : joinPieces src hooks whole pieces s = (.ok r, s')) :
    joinPieces src hooks whole' pieces s = (.ok r, s') := by
  induction pieces generalizing r s s' with
  | nil => exact h
  | cons piece pieces ih =>
    cases piece with
    | text cs =>
      obtain ⟨rest, t, hrest, hr⟩ := bind_eq_ok_iff.1 h
      exact bind_eq_ok_iff.2 ⟨rest, t, ih hrest, hr⟩
    | hole inner =>
      obtain ⟨here, t, hhere, h⟩ := bind_eq_ok_iff.1 h
      obtain ⟨rest, u, hrest, hr⟩ := bind_eq_ok_iff.1 h
      exact bind_eq_ok_iff.2 ⟨here, t, hhere, bind_eq_ok_iff.2 ⟨rest, u, ih hrest, hr⟩⟩
    | unclosed => cases h

/-! ## 3. Two texts, one behind the other -/

/-- The holes of the first text are filled, then those of the second. -/
theorem interpolate_append_eq {a b : String} (ha : Lexeme.closesHoles 0 a.toList = true)
    (hseam : Piece.OpensNone a.toList b.toList) :
    interpolate src hooks (a ++ b) = do
      let x ← interpolate src hooks a
      return x ++ (← joinPieces src hooks (a ++ b) (Piece.split b.toList)) := by
  obtain ⟨as, l, m, bs, hsplit, hb, happend⟩ := Piece.split_append ha hseam
  have hclosed : Piece.unclosed ∉ Piece.split a.toList :=
    (Piece.unclosed_not_mem_split_iff a.toList).2 ha
  have hfirst : interpolate src hooks a =
      joinPieces src hooks (a ++ b) (Piece.split a.toList) := joinPieces_eq_of_closed hclosed
  rw [hfirst, interpolate, String.toList_append, hsplit, hb, happend, joinPieces_append,
    joinPieces_append]
  simp only [joinPieces, bind_assoc, pure_bind, String.ofList_append, String.append_assoc,
    String.append_empty]

/-- A text put together from two is interpolated as the one and then the other, in the state that the
first has left. That the first closes its holes is what keeps the second from being read as a part of
one of them. -/
theorem interpolate_append_ok_iff {a b : String} (ha : Lexeme.closesHoles 0 a.toList = true)
    (hseam : Piece.OpensNone a.toList b.toList) {s s' : State} {r : String} :
    interpolate src hooks (a ++ b) s = (.ok r, s') ↔
      ∃ x t y, interpolate src hooks a s = (.ok x, t) ∧ interpolate src hooks b t = (.ok y, s') ∧
        r = x ++ y := by
  rw [interpolate_append_eq ha hseam]
  constructor
  · intro h
    obtain ⟨x, t, hx, h⟩ := bind_eq_ok h
    obtain ⟨y, u, hy, h⟩ := bind_eq_ok h
    obtain ⟨hr, hu⟩ := Prod.mk.inj h
    obtain rfl : u = s' := hu
    exact ⟨x, t, y, hx, joinPieces_ok hy, (Except.ok.inj hr).symm⟩
  · rintro ⟨x, t, y, hx, hy, rfl⟩
    exact bind_eq_ok_iff.2 ⟨x, t, hx, bind_eq_ok_iff.2 ⟨y, s', joinPieces_ok hy, rfl⟩⟩

end Eval

/-! ## 4. A variable in a hole -/

namespace Lexeme

variable {cs : List Char} (h : ∀ c ∈ cs, isNameRest c = true)
include h

/-- A text of letters, digits and underscores has no braces. -/
theorem openBraces_of_names : openBraces 0 cs = some 0 := by
  refine openBraces_of_no_braces (fun c hc => ?_) 0
  have hname := h c hc
  constructor <;> rintro rfl <;> exact absurd hname (by decide)

/-- It has no blank characters around it. -/
theorem trimChars_of_names : trimChars cs = cs := by
  refine trimChars_eq_self (fun c hc => ?_) (tight_of_names h)
  refine Bool.eq_false_iff.2 fun hblank => ?_
  have hname := h c (List.mem_of_head? hc)
  exact Bool.noConfusion (hname.symm.trans (not_isNameRest_of_isBlank hblank))

/-- And it does not begin with `env.`. -/
theorem dropPrefix?_of_names : dropPrefix? "env.".toList cs = none := by
  cases henv : dropPrefix? "env.".toList cs with
  | none => rfl
  | some rest =>
    obtain rfl := dropPrefix?_eq_some_iff.1 henv
    exact absurd (h '.' (List.mem_append_left rest (by decide))) (by decide)

end Lexeme

theorem IsIdentifier.names {name : String} (h : IsIdentifier name) :
    ∀ c ∈ name.toList, Lexeme.isNameRest c = true := by
  obtain ⟨c, cs, hcs, hc, hrest, -⟩ := h
  rw [hcs]
  exact List.forall_mem_cons.2 ⟨Lexeme.isNameRest_of_isNameStart hc, hrest⟩

theorem IsIdentifier.toList_ne_nil {name : String} (h : IsIdentifier name) : name.toList ≠ [] := by
  obtain ⟨c, cs, hcs, -⟩ := h
  rw [hcs]
  exact List.cons_ne_nil c cs

/-- An identifier is read as a name. -/
theorem Node.parseExpression_identifier {name : String} (hname : IsIdentifier name)
    (hnull : name ≠ "null") (file : String) : parseExpression name file = .ok (.ident name) := by
  obtain ⟨last, hlist⟩ := (cuts_identifier .start hname).list loose_nil
  have hspells : (ident name).Spells Token.SameLine [⟨.ident, name, .start, none, none⟩] :=
    ⟨_, rfl, ⟨rfl, rfl⟩, hnull⟩
  have hreadable : (ident name).Readable := .intro ⟨trivial, trivial⟩ (by simp [children])
  have hbudget : 10 * 1 + 9 ≤
      Rule.budget ([⟨.ident, name, .start, none, none⟩] ++ [Token.endOfInput last]) := by
    show 10 * 1 + 9 ≤ 10 * 2 + 10
    omega
  obtain ⟨n, hn, hgives⟩ := reads_loneExpression rfl hreadable 0 (.endOfInput last) hspells rfl
    hbudget
  obtain rfl : n = ident name := by
    cases n <;> simp_all [unplaced]
  exact Rule.readText_eq hlist hgives file

/-- A name in a hole is this name. -/
theorem Hole.read_identifier {name : String} (hname : IsIdentifier name) (hnull : name ≠ "null")
    (file : String) : read name.toList file = .expression (.ident name) := by
  have hempty : ¬name.toList.isEmpty = true := by
    simpa using hname.toList_ne_nil
  rw [read, if_neg hempty]
  simp only [Lexeme.dropPrefix?_of_names hname.names, String.ofList_toList,
    Node.parseExpression_identifier hname hnull]

section HoleText

variable {a b : List Char} {e more : String}

theorem closesHoles_holeText (h : Lexeme.FitsReference e.toList) :
    Lexeme.closesHoles 0 (holeText e).toList = true := by
  rw [← Piece.unclosed_not_mem_split_iff, Piece.split_holeText h]
  simp

/-- A hole ends with its brace. -/
theorem Piece.opensNone_holeText : OpensNone (holeText e).toList b := by
  rintro ⟨hlast, -⟩
  rw [holeText, String.toList_ofList, ← List.cons_append, ← List.cons_append,
    List.getLast?_append_of_ne_nil _ (List.cons_ne_nil _ _)] at hlast
  exact absurd hlast (by decide)

/-- And it begins with its dollar sign. -/
theorem Piece.opensNone_of_holeText : OpensNone a (holeText e ++ more).toList := by
  rintro ⟨-, hhead⟩
  rw [holeText, String.toList_append, String.toList_ofList] at hhead
  exact absurd (Option.some.inj hhead) (by decide)

end HoleText

namespace Eval

/-- The text of a hole with a variable in it is that of the variable's value. -/
theorem interpolate_variable {src : Source} {inclusion : String → Eval Value} {depth : Nat}
    {name : String} (hname : IsIdentifier name) (hnull : name ≠ "null") (henv : name ≠ "env")
    {s : State} {v : Value} (hv : s.scope.lookup name = v) :
    interpolate src (Hooks.atDepth inclusion src (depth + 1)) (holeText name) s =
      (ofExcept ((v.unwrapCall (.ident name)).map Value.print)) s := by
  have hfits := (Lexeme.fitsReference_iff name.toList).2 (Lexeme.openBraces_of_names hname.names)
  rw [interpolate_holeText hfits, Lexeme.trimChars_of_names hname.names, fillHole,
    Hole.read_identifier hname hnull]
  simp only [Hooks.atDepth, Node.evalWith, if_neg henv, bind_assoc]
  rw [bind_apply, scope_apply]
  subst hv
  dsimp only
  rw [pure_bind]
  cases (s.scope.lookup name).unwrapCall (.ident name) <;> rfl

/-! ## 5. The whole -/

/-- **Filling holes goes with putting texts together.** If all holes of a text are closed and none
opens where another text follows it, the two together succeed exactly if the first does and, in the
state that it leaves, the second does, and then they give what the two give, one behind the other. A
variable in a hole between them gives the text of its value as it is, whatever holes that has. -/
theorem interpolate_append {a b : String} (ha : Lexeme.closesHoles 0 a.toList = true)
    (hseam : ¬(a.toList.getLast? = some '$' ∧ b.toList.head? = some '{')) (src : Source)
    (hooks : Hooks) :
    (∀ s r s', interpolate src hooks (a ++ b) s = (.ok r, s') ↔
      ∃ x t y, interpolate src hooks a s = (.ok x, t) ∧ interpolate src hooks b t = (.ok y, s') ∧
        r = x ++ y) ∧
    ∀ name, IsIdentifier name → name ≠ "null" → name ≠ "env" → ∀ inclusion depth,
      hooks = Hooks.atDepth inclusion src (depth + 1) → ∀ s x t v y s',
        interpolate src hooks a s = (.ok x, t) → t.scope.lookup name = .str v →
        interpolate src hooks b t = (.ok y, s') →
        interpolate src hooks (a ++ holeText name ++ b) s = (.ok (x ++ v ++ y), s') := by
  constructor
  · intro s r s'
    exact interpolate_append_ok_iff ha hseam
  · rintro name hname hnull henv inclusion depth rfl s x t v y s' hx hv hy
    have hhole : interpolate src (Hooks.atDepth inclusion src (depth + 1)) (holeText name) t =
        (.ok v, t) := interpolate_variable hname hnull henv hv
    have hfits := (Lexeme.fitsReference_iff name.toList).2 (Lexeme.openBraces_of_names hname.names)
    have hb : interpolate src (Hooks.atDepth inclusion src (depth + 1)) (holeText name ++ b) t =
        (.ok (v ++ y), s') :=
      (interpolate_append_ok_iff (closesHoles_holeText hfits) Piece.opensNone_holeText).2
        ⟨v, t, y, hhole, hy, rfl⟩
    rw [String.append_assoc, String.append_assoc]
    exact (interpolate_append_ok_iff ha Piece.opensNone_of_holeText).2 ⟨x, t, v ++ y, hx, hb, rfl⟩

/-- A variable whose text looks like a hole, between a dollar sign and a brace. -/
theorem interpolate_append_variable :
    let src : Source := ⟨⟨.default, [], fun _ _ => .ok ""⟩, "f", "/", []⟩
    let hooks := Hooks.atDepth (fun _ => fail (.interpolation .tooDeep)) src 1
    let s : State := ⟨.root [("x", .str "$\x7bx\x7d")], ⟨⟨.empty, "/", [], []⟩, .fresh, [], []⟩⟩
    (Lexeme.closesHoles 0 "$".toList = true ∧
        ¬("$".toList.getLast? = some '$' ∧ "+".toList.head? = some '{')) ∧
      interpolate src hooks ("$" ++ "+") s = (.ok "$+", s) ∧
      interpolate src hooks ("$" ++ holeText "x" ++ "+") s = (.ok "$$\x7bx\x7d+", s) := by
  intro src hooks s
  have hdollar : interpolate src hooks "$" s = (.ok "$", s) := by
    have hsplit : Piece.split "$".toList = [.text ['$']] := Piece.split_of_none rfl
    rw [interpolate, hsplit]
    rfl
  have hplus : interpolate src hooks "+" s = (.ok "+", s) := by
    have hsplit : Piece.split "+".toList = [.text ['+']] := Piece.split_of_none rfl
    rw [interpolate, hsplit]
    rfl
  have hname : IsIdentifier "x" := ⟨'x', [], rfl, rfl, by simp, rfl⟩
  have hseam : ¬("$".toList.getLast? = some '$' ∧ "+".toList.head? = some '{') := by decide
  obtain ⟨happend, hvariable⟩ := interpolate_append (a := "$") (b := "+") rfl hseam src hooks
  refine ⟨⟨rfl, hseam⟩, (happend s _ s).2 ⟨_, s, _, hdollar, hplus, rfl⟩, ?_⟩
  exact hvariable "x" hname (by decide) (by decide) _ 0 rfl s _ s _ _ s hdollar rfl hplus

end Eval

end BlockConfig
