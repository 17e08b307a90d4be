import BlockConfig.Proofs.Eval.Positions
import BlockConfig.Proofs.Eval.Property
import BlockConfig.Proofs.Eval.TextLength
import BlockConfig.Proofs.Grammar.Trimmed

/-!
Expressions inside strings.

A string that is nothing but a hole has the text of what is in the hole for its value. The
expression is read from the trimmed inside of the hole, so it is the expression of its text with
other positions, and it is evaluated with another bound for the depth of strings, which makes no
difference as long as its strings are shorter.

The interpolator looks for `env.` before it looks for an expression. What begins so is the
expression it seems to be only if a name follows (`Hole.Mistaken`).
-/

set_option autoImplicit false

namespace BlockConfig

open Text Eval

/-! ## 1. A string with one hole -/

/-- The content of a string that is a hole with a text in it. -/
def holeText (e : String) : String :=
  String.ofList ('$' :: '{' :: (e.toList ++ ['}']))

/-- The source of that string. -/
def holeSource (q : Char) (e : String) : String :=
  String.ofList (q :: ((holeText e).toList ++ [q]))

/-- In a hole braces are all that counts. -/
theorem Lexeme.stringBody_of_closeBraces {q : Char} {depth : Nat}
    {cs inner rest out more : List Char} (h : closeBraces depth cs = some (inner, rest))
    (hq : stringBody q 0 rest = some (out, more)) :
    stringBody q (depth + 1) cs = some (inner ++ '}' :: out, more) := by
  fun_induction closeBraces depth cs generalizing inner rest with
  | case1 => simp at h
  | case3 cs =>
    simp only [Option.some.injEq, Prod.mk.injEq] at h
    obtain ⟨rfl, rfl⟩ := h
    rw [stringBody]
    simp [hq]
  | case2 depth cs ih | case4 depth cs ih =>
    obtain ⟨⟨i, r⟩, hi, he⟩ := Option.map_eq_some_iff.1 h
    simp only [Prod.mk.injEq] at he
    obtain ⟨rfl, rfl⟩ := he
    have ih := ih hi hq
    rw [stringBody]
    simp [ih]
  | case5 depth c cs h1 h2 h3 ih =>
    obtain ⟨i, hi, rfl⟩ := Lexeme.exists_of_map_fst (c :: ·) h
    have hc : c ≠ '}' := by
      cases depth with
      | zero => exact h2 rfl
      | succ depth => exact h3 depth rfl
    have ih := ih hi hq
    rw [stringBody]
    dsimp only
    rw [if_neg h1, if_neg hc, ih]
    rfl

section Hole

variable {e file : String} (h : Lexeme.FitsReference e.toList)
include h

/-- The interpolator finds the one hole. -/
theorem Piece.split_holeText :
    split (holeText e).toList = [.text [], .hole (trimChars e.toList), .text []] := by
  have hfirst : beforeHole (holeText e).toList = ([], some (e.toList ++ ['}'])) := by
    rw [holeText, String.toList_ofList]
    rfl
  have hclose : Lexeme.closeBraces 0 (e.toList ++ ['}']) = some (e.toList, []) := h
  have hnil : split [] = [.text []] := by
    rw [split]
    rfl
  rw [split]
  split
  next hno => exact absurd (hfirst.symm.trans hno) (by simp)
  next front rest hsome =>
    obtain ⟨rfl, rfl⟩ : [] = front ∧ e.toList ++ ['}'] = rest := by
      simpa using hfirst.symm.trans hsome
    split
    next hno => exact absurd (hclose.symm.trans hno) (by simp)
    next inner rest hsome =>
      obtain ⟨rfl, rfl⟩ : e.toList = inner ∧ [] = rest := by
        simpa using hclose.symm.trans hsome
      rw [hnil]

/-- The string is read as one. -/
theorem Node.parseExpression_holeSource {q : Char} (hq : Lexeme.isQuote q = true) :
    Node.parseExpression (holeSource q e) file = .ok (.literal (.str (holeText e) q none)) := by
  have hbody : Lexeme.stringBody q 0 ((holeText e).toList ++ [q]) =
      some ((holeText e).toList, []) := by
    have hend : Lexeme.stringBody q 0 [q] = some ([], []) := by
      rw [Lexeme.stringBody.eq_def]
      simp
    have hinner : Lexeme.stringBody q 1 (e.toList ++ ['}', q]) = some (e.toList ++ ['}'], []) := by
      have hclose := Lexeme.closeBraces_append h [q]
      rw [List.append_assoc] at hclose
      exact Lexeme.stringBody_of_closeBraces hclose hend
    rw [holeText, String.toList_ofList, List.cons_append, List.cons_append, Lexeme.stringBody]
    simp [Lexeme.dollar_ne_of_isQuote hq, hinner]
  have hgap : ¬isGap q = true := by simp [Lexeme.not_isGap_of_isQuote hq]
  have hscan := Lexeme.scan_ok_iff.2 (.string hq hbody)
  have hlist : ∃ p, Token.list (holeSource q e).toList =
      .ok [⟨.str, holeText e, .start, none, some q⟩, .endOfInput p] := by
    rw [holeSource, String.toList_ofList]
    refine ⟨_, Token.listFrom_step (List.dropWhile_cons_of_neg hgap) hscan ?_
      (Token.listFrom_nil _)⟩
    rw [List.takeWhile_cons_of_neg hgap, String.ofList_toList]
    rfl
  obtain ⟨p, hlist⟩ := hlist
  exact Rule.readText_ok_iff.2 ⟨_, _, hlist, rfl⟩

end Hole

/-! ## 2. How deep strings are -/

namespace Eval

/-- Equality of evaluations is kept by everything that evaluation is made of. -/
theorem congruence_eq : Congruence fun x y => x = y where
  pure _ := rfl
  bind h hf := congr (congrArg _ h) (funext hf)
  fail _ := rfl
  own h := congrArg _ (funext fun a => h a a rfl)
  host h := congrArg _ (funext fun w => h w.host)
  set _ _ := rfl
  attempt h := congrArg _ h
  locating := by
    intro _ file pos x y h
    exact congrArg (locating file pos) h
  inChild h := congrArg _ h
  aside h := by
    obtain rfl := h
    rfl

end Eval

/-- **Two bounds for the depth of strings make no difference** if both are as large as the strings
are long. -/
theorem Node.evalWith_atDepth_eq {src : Source} {inclusion : String → Eval Value} {n : Node}
    {depth depth' : Nat} (h : n.longestText ≤ depth) (h' : n.longestText ≤ depth') :
    n.evalWith src (Hooks.atDepth inclusion src depth) =
      n.evalWith src (Hooks.atDepth inclusion src depth') := by
  -- An expression in a string has shorter strings and takes one level of depth.
  induction hlength : n.longestText using Nat.strong_induction_on generalizing n depth depth' with
  | _ length ih =>
    subst hlength
    refine congruence_eq.evalWith ⟨rfl, rfl, rfl⟩ (agreesHere_of_shorter (fun n here => ?_)
      (fun m short => ?_) (Nat.le_refl n.longestText))
    · refine ⟨fun _ _ => rfl, here, fun _ _ _ _ _ => rfl, fun _ _ _ target => ?_,
        fun _ _ _ _ _ _ => rfl⟩
      rw [Hooks.inclusion_atDepth, Hooks.inclusion_atDepth]
    · obtain ⟨depth, rfl⟩ := Nat.exists_eq_succ_of_ne_zero (n := depth) (by omega)
      obtain ⟨depth', rfl⟩ := Nat.exists_eq_succ_of_ne_zero (n := depth') (by omega)
      have hm : m.evalWith src (Hooks.atDepth inclusion src depth) =
          m.evalWith src (Hooks.atDepth inclusion src depth') :=
        ih _ short (by omega) (by omega) rfl
      simp only [Hooks.atDepth, hm]

/-! ## 3. References -/

namespace Rule

open Cursor

variable {n : Nat} {c d : Cursor} {t : Node}

/-- An operand that begins with a name and a point goes on behind a member of that name. -/
theorem members_of_unary (h : (unary n).Gives c t d) (hi : (c.peekAt 0).kind = .ident)
    (hn : (c.peekAt 0).literal ≠ "null") (hdot : (c.skip.peekAt 0).kind = .dot) :
    (c.skip.skip.peekAt 0).isName = true ∧ ∃ k, (members k
      (.member (.ident (c.peekAt 0).literal) (c.skip.skip.peekAt 0).literal)).Gives
        c.skip.skip.skip t d := by
  cases n with
  | zero => exact absurd h (not_gives_exhausted _ _ _)
  | succ n =>
    obtain ⟨op, _, hop, -⟩ | ⟨-, left, e, hp, hm⟩ := (gives_unary _ _ _ _).1 h
    · rw [hi] at hop
      cases hop
    cases n with
    | zero => exact absurd hp (not_gives_exhausted _ _ _)
    | succ n =>
      cases (gives_primary _ _ _ _).1 hp with
      | ident =>
        obtain ⟨hno, -⟩ | ⟨-, hname, hm⟩ := (gives_members _ _ _ _ _).1 hm
        · exact absurd hdot hno
        · exact ⟨hname, _, hm⟩
      | call _ _ hparen => simp [hdot] at hparen
      | null _ hnull => exact absurd hnull hn
      | number hk | str hk | heredoc hk | bool hk | envRef hk | group hk | list hk | entries hk
      | directive hk => simp [hi] at hk

/-- An expression that begins with a name and a point is a member of that name, and nothing else if
nothing is behind the member. -/
theorem member_of_expression (h : (expression n).Gives c t d) (hi : (c.peekAt 0).kind = .ident)
    (hn : (c.peekAt 0).literal ≠ "null") (hdot : (c.skip.peekAt 0).kind = .dot) :
    (c.skip.skip.peekAt 0).isName = true ∧ ((c.skip.skip.skip.peekAt 0).kind = .eof →
      t = .member (.ident (c.peekAt 0).literal) (c.skip.skip.peekAt 0).literal) := by
  obtain _ | _ | n := n
  · exact absurd h (not_gives_exhausted _ _ _)
  · obtain ⟨_, _, h, -⟩ := (gives_expression _ _ _ _).1 h
    exact absurd h (not_gives_exhausted _ _ _)
  · obtain ⟨condition, e₁, hbinary, hchoice⟩ := (gives_expression _ _ _ _).1 h
    obtain ⟨left, e, hunary, hclimb⟩ := (gives_binary _ _ _ _ _).1 hbinary
    obtain ⟨hname, k, hmembers⟩ := members_of_unary hunary hi hn hdot
    refine ⟨hname, fun heof => ?_⟩
    -- The end of input goes on with nothing, whichever rule looks at it.
    cases k with
    | zero => exact absurd hmembers (not_gives_exhausted _ _ _)
    | succ k =>
      obtain ⟨-, rfl, rfl⟩ | ⟨hno, -⟩ := (gives_members _ _ _ _ _).1 hmembers
      · cases n with
        | zero => exact absurd hclimb (not_gives_exhausted _ _ _)
        | succ n =>
          obtain ⟨-, rfl, rfl⟩ | ⟨op, _, _, hop, -⟩ := (gives_climb _ _ _ _ _ _).1 hclimb
          · obtain ⟨-, rfl, -⟩ | ⟨hno, -⟩ := hchoice
            · rfl
            · simp [heof] at hno
          · simp [Cursor.operator?, heof, BinaryOp.ofKind?] at hop
      · simp [heof] at hno

end Rule

/-- A text that a variable of the environment may have for its name is one word if it is read as a
name at all. -/
theorem Token.exists_of_listFrom_name {p : Position} {name : List Char} {ts : List Token}
    (hname : Hole.isVariableName name = true) (h : listFrom p name = .ok ts) :
    ∃ t us, ts = t :: us ∧
      (t.isName = true → t.literal = String.ofList name ∧ ∃ u, us = [u] ∧ u.kind = .eof) := by
  obtain ⟨hne, hall⟩ := Bool.and_eq_true_iff.1 hname
  obtain ⟨c, cs, rfl⟩ := List.exists_cons_of_ne_nil (l := name) (by
    rintro rfl
    cases hne)
  rw [List.all_eq_true] at hall
  have hc := hall c List.mem_cons_self
  have hgap : isGap c = false := by
    refine Bool.eq_false_iff.2 fun hg => ?_
    have hblank := Lexeme.not_isNameRest_of_isBlank (isBlank_of_isGap hg)
    exact Bool.noConfusion (hc.symm.trans hblank)
  obtain ⟨l, taken, us, hl, -, hus, rfl⟩ := exists_of_listFrom_cons hgap h
  refine ⟨_, us, rfl, fun hisName => ?_⟩
  by_cases hstart : Lexeme.isNameStart c = true
  · have hword := @Lexeme.scan_word c cs [] hstart
      (fun d hd => hall d (List.mem_cons_of_mem c hd)) (by simp)
    rw [List.append_nil] at hword
    obtain rfl := Except.ok.inj (hl.symm.trans hword)
    rw [listFrom_nil] at hus
    exact ⟨rfl, _, (Except.ok.inj hus).symm, rfl⟩
  · -- What begins with a digit is a number, and no name.
    have hdigit : c.isDigit = true := by
      simp only [Lexeme.isNameRest, Char.isAlphanum, Bool.or_eq_true] at hc
      simp only [Lexeme.isNameStart, Bool.or_eq_true] at hstart
      tauto
    have hnumber : Lexeme.scan c cs = .ok (Lexeme.number (c :: cs)) :=
      Lexeme.scan_ok_iff.2 (.number hdigit)
    obtain rfl := Except.ok.inj (hl.symm.trans hnumber)
    cases hisName

/-- **A reference to the environment is read as one** by whoever takes it for an expression. Its tokens are
a word, a dot and what the name of the variable is cut into, and a member has one name only. -/
theorem Node.parseExpression_reference {rest : List Char} {file : String} {node : Node}
    (hrest : Tight rest) (hname : Hole.isVariableName (trimChars rest) = true)
    (h : parseExpression (String.ofList ("env.".toList ++ rest)) file = .ok node) :
    node = .member (.ident "env") (String.ofList (trimChars rest)) := by
  obtain ⟨ts, c, hts, hgives⟩ := Rule.readText_ok_iff.1 h
  obtain ⟨d, hexpr, -⟩ := (Rule.gives_loneExpression _ _ _ _).1 hgives
  rw [String.toList_ofList] at hts
  have henv : Lexeme.scan 'e' ('n' :: 'v' :: '.' :: rest) =
      .ok (.plain .ident "env".toList ('.' :: rest)) := rfl
  obtain ⟨l, _, us, hl, -, hus, rfl⟩ := Token.exists_of_listFrom_cons (c := 'e') rfl hts
  obtain rfl := Except.ok.inj (hl.symm.trans henv)
  have hpoint : Lexeme.scan '.' rest = .ok (.plain .dot ['.'] rest) := by
    cases rest <;> rfl
  obtain ⟨l, _, vs, hl, -, hvs, rfl⟩ := Token.exists_of_listFrom_cons (c := '.') rfl hus
  obtain rfl := Except.ok.inj (hl.symm.trans hpoint)
  rw [← hrest.takeWhile_append_trimChars] at hvs
  obtain ⟨t, ws, rfl, ht⟩ := Token.exists_of_listFrom_name hname
    (Token.listFrom_append_of_blank (fun c hc => List.mem_takeWhile_imp hc) hvs)
  have hnull : String.ofList "env".toList ≠ "null" := by decide
  obtain ⟨hisName, hmember⟩ := Rule.member_of_expression hexpr rfl hnull rfl
  obtain ⟨hliteral, u, rfl, hu⟩ := ht hisName
  refine (hmember hu).trans ?_
  rw [← hliteral]
  rfl

/-- What is left of an expression without the blanks around it. -/
theorem Node.trimChars_ne_nil {e file : String} {node : Node}
    (h : parseExpression (Text.trim e) file = .ok node) : trimChars e.toList ≠ [] := by
  intro hnil
  rw [Text.trim, hnil] at h
  obtain ⟨ts, c, hts, hgives⟩ := Rule.readText_ok_iff.1 h
  rw [String.toList_ofList, Token.list, Token.listFrom_nil] at hts
  obtain rfl := Except.ok.inj hts
  cases hgives

/-! ## 4. The value of a hole -/

/-- What is in a hole is taken for a reference to the environment that it is not. -/
def Hole.Mistaken (inner : List Char) : Prop :=
  ∃ rest, inner = "env.".toList ++ rest ∧ isVariableName (trimChars rest) = false

/-- Whatever begins with `env.` is taken for a reference. -/
theorem Hole.exists_reference (rest : List Char) : ∃ name default, ∀ file,
    read ("env.".toList ++ rest) file = .reference name default :=
  ⟨String.ofList (trimChars ((Text.splitOnce ':' rest).getD (rest, [])).1), _, fun _ => rfl⟩

/-- In the name of a variable there is no colon. -/
theorem Hole.colon_not_mem {name : List Char} (h : isVariableName name = true) : ':' ∉ name :=
  fun hm => absurd (List.all_eq_true.1 (Bool.and_eq_true_iff.1 h).2 _ hm) (by decide)

namespace Eval

variable {src : Source} {hooks : Hooks}

/-- The text of a string with one hole is that of the hole. -/
theorem interpolate_holeText {e : String} (h : Lexeme.FitsReference e.toList) :
    interpolate src hooks (holeText e) = fillHole src hooks (trimChars e.toList) := by
  rw [interpolate, Piece.split_holeText h]
  simp [joinPieces]

/-- A reference to the environment has the text that its expression has. -/
theorem environment_text {name : String} (hname : Hole.isVariableName name.toList = true) :
    (do
      let v ← (Node.member (.ident "env") name).evalWith src hooks
      return (← ofExcept (v.unwrapCall (.member (.ident "env") name))).print) =
      (return (← envValue? src name).getD "" : Eval String) := by
  have hcolon : Text.splitStringOnce ':' name = none := by
    rw [Text.splitStringOnce, Option.map_eq_none_iff, splitOnce_eq_none_iff]
    exact Hole.colon_not_mem hname
  simp only [Node.evalWith, Value.unwrapCall, Value.member, Value.environmentMember, hcolon,
    ofExcept, envValue?, Option.getD_none, if_pos, pure_bind, bind_assoc]
  rfl

/-- A hole with an expression in it has the text of the expression's value. -/
theorem fillHole_of_parseExpression {inner : List Char} {file : String} {n : Node}
    (h : Node.parseExpression (String.ofList inner) file = .ok n) (hne : inner ≠ [])
    (htight : Tight inner) (hplain : ¬Hole.Mistaken inner) {deeper : Hooks}
    (hsplice : hooks.splice n = do
      ofExcept ((← n.evalWith src deeper).unwrapCall n)) :
    fillHole src hooks inner = do
      let v ← n.evalWith src deeper
      return (← ofExcept (v.unwrapCall n)).print := by
  have hempty : ¬inner.isEmpty = true := by simpa using hne
  cases henv : Text.dropPrefix? "env.".toList inner with
  | none =>
    have hread : Node.parseExpression (String.ofList inner) src.file = .ok n :=
      Rule.readText_ok_iff.2 (Rule.readText_ok_iff.1 h)
    have hhole : Hole.read inner src.file = .expression n := by
      rw [Hole.read, if_neg hempty]
      simp only [henv, hread]
    simp only [fillHole, hhole, hsplice, bind_assoc]
  | some rest =>
    obtain rfl := Text.dropPrefix?_eq_some_iff.1 henv
    -- With `env.` in front the hole is taken for a reference. As it is not mistaken for one, the name of
    -- a variable follows, and the expression is that member of `env`.
    have hname : Hole.isVariableName (trimChars rest) = true := by
      by_contra hno
      exact hplain ⟨rest, rfl, Bool.eq_false_iff.2 hno⟩
    have hrest : Tight rest := htight.of_suffix (List.suffix_append _ _)
    obtain rfl := Node.parseExpression_reference hrest hname h
    have hcolon : Text.splitOnce ':' rest = none := by
      rw [splitOnce_eq_none_iff, ← hrest.takeWhile_append_trimChars, List.mem_append]
      rintro (hm | hm)
      · exact absurd (List.mem_takeWhile_imp hm) (by decide)
      · exact Hole.colon_not_mem hname hm
    have hhole : Hole.read ("env.".toList ++ rest) src.file =
        .reference (String.ofList (trimChars rest)) "" := by
      rw [Hole.read, if_neg hempty]
      simp only [henv, hcolon, Option.getD_none]
    simp only [fillHole, hhole]
    exact (environment_text (by rwa [String.toList_ofList])).symm

end Eval

namespace Node

section Value

variable {e file : String} {n : Node} (q : Char) (hfits : Lexeme.FitsReference e.toList)
include hfits

/-- The value of a string with one hole, if an expression is found in it. -/
theorem evalValue_holeText (h : parseExpression (Text.trim e) file = .ok n)
    (hplain : ¬Hole.Mistaken (trimChars e.toList)) (src : Source) :
    (literal (.str (holeText e) q none)).evalValue src = do
      return .str (← n.evalValue src).print := by
  have hlongest : (literal (.str (holeText e) q none)).longestText = e.length + 2 + 1 := by
    rw [longestText, holeText, String.length_ofList, ← String.length_toList]
    simp
  have hshort : n.longestText ≤ e.length + 2 := by
    have hle := longestText_parseExpression_le h
    have htrim := length_trimChars_le e.toList
    rw [Text.trim, String.length_ofList] at hle
    rw [String.length_toList] at htrim
    omega
  -- The hole takes one level of depth, and what is left is enough.
  have hdeeper (w : World) :
      (literal (.str (holeText e) q none)).evalWith src (src.hooks w (e.length + 2 + 1)) = do
        let v ← n.evalWith src (src.hooks w n.longestText)
        return .str (← ofExcept (v.unwrapCall n)).print := by
    have hhole : fillHole src (src.hooks w (e.length + 2 + 1)) (trimChars e.toList) = do
        let v ← n.evalWith src (src.hooks w (e.length + 2))
        return (← ofExcept (v.unwrapCall n)).print :=
      fillHole_of_parseExpression h (trimChars_ne_nil h) (getLast?_trimChars e.toList) hplain rfl
    have hdepth : n.evalWith src (src.hooks w (e.length + 2)) =
        n.evalWith src (src.hooks w n.longestText) := evalWith_atDepth_eq hshort (Nat.le_refl _)
    rw [evalWith, literalValue, interpolate_holeText hfits, hhole, hdepth]
    simp only [bind_assoc, pure_bind]
  unfold evalValue eval
  rw [hlongest]
  simp only [bind_assoc, hdeeper, pure_bind]
  rfl

/-- The value of a string with one hole, if a reference to the environment is found in it. -/
theorem evalValue_holeText_reference {name default : String} {src : Source}
    (h : Hole.read (trimChars e.toList) src.file = .reference name default) :
    (literal (.str (holeText e) q none)).evalValue src = do
      return .str ((← envValue? src name).getD default) := by
  unfold evalValue eval
  simp only [evalWith, literalValue, interpolate_holeText hfits, fillHole, h, bind_assoc, pure_bind]
  rfl

end Value

/-- **An expression in a string has the text of its value,** or the string fails as the expression
does, unless it begins like a reference to the environment and is none. What is read in the hole is
the expression of the trimmed text; it is the one of the text itself up to its positions, so that
the string and the expression can only differ in where they say that an error was found. In the
other case the expression is not evaluated at all. -/
theorem evalValue_holeSource {q : Char} (hq : Lexeme.isQuote q = true) {e file : String} {n : Node}
    (h : parseExpression e file = .ok n) (hbraces : Lexeme.openBraces 0 e.toList = some 0) :
    ∃ string trimmed, parseExpression (holeSource q e) file = .ok string ∧
      parseExpression (Text.trim e) file = .ok trimmed ∧ trimmed.unplaced = n.unplaced ∧
      (¬Hole.Mistaken (trimChars e.toList) → ∀ src : Source,
        string.evalValue src = (do return .str (← trimmed.evalValue src).print) ∧
        Agree Eq (string.evalValue src) (do return .str (← n.evalValue src).print)) ∧
      (Hole.Mistaken (trimChars e.toList) → ∃ name default,
        Hole.read (trimChars e.toList) file = .reference name default ∧ ∀ src : Source,
          string.evalValue src = do return .str ((← envValue? src name).getD default)) := by
  have hfits := (Lexeme.fitsReference_iff e.toList).2 hbraces
  obtain ⟨trimmed, htrim, rfl⟩ := parseExpression_trim h
  refine ⟨_, trimmed, parseExpression_holeSource hfits hq, htrim, (unplaced_mapPos _ _).symm,
    ?_, ?_⟩
  · intro hplain src
    have hvalue := evalValue_holeText q hfits htrim hplain src
    refine ⟨hvalue, ?_⟩
    rw [hvalue]
    exact (agree_evalValue (unplaced_mapPos _ _).symm src).map _
  · rintro ⟨rest, hrest, -⟩
    obtain ⟨name, default, hread⟩ := Hole.exists_reference rest
    rw [← hrest] at hread
    refine ⟨name, default, hread file, fun src => ?_⟩
    exact evalValue_holeText_reference q hfits (hread src.file)

/-- A sum that begins with a variable of the environment is looked up there as a whole. -/
theorem evalValue_holeSource_sum :
    let sum := Node.binary .add (.member (.ident "env") "A") (.literal (.int 1))
    let src : Source := ⟨⟨.default, [], fun _ _ => .ok ""⟩, "f", "/", []⟩
    let s : State := ⟨.root [], ⟨⟨.empty, "/", [], []⟩, .fresh, [], []⟩⟩
    (Lexeme.isQuote '"' = true ∧ parseExpression "env.A+1" "f" = .ok sum ∧
        Lexeme.openBraces 0 "env.A+1".toList = some 0) ∧
      sum.evalValue src s = (.ok (.str "1"), s) ∧
      ∃ string, parseExpression (holeSource '"' "env.A+1") "f" = .ok string ∧
        string.evalValue src s = (.ok (.str ""), s) := by
  intro sum src s
  have hlist : Token.list "env.A+1".toList =
      .ok [⟨.ident, "env", ⟨1, 1⟩, none, none⟩, ⟨.dot, ".", ⟨1, 4⟩, none, none⟩,
        ⟨.ident, "A", ⟨1, 5⟩, none, none⟩, ⟨.plus, "+", ⟨1, 6⟩, none, none⟩,
        ⟨.number, "1", ⟨1, 7⟩, none, none⟩, .endOfInput ⟨1, 8⟩] := by
    refine Token.listFrom_step rfl rfl rfl ?_
    refine Token.listFrom_step rfl rfl rfl ?_
    refine Token.listFrom_step rfl rfl rfl ?_
    refine Token.listFrom_step rfl rfl rfl ?_
    refine Token.listFrom_step rfl rfl rfl ?_
    exact Token.listFrom_nil _
  have hsum : parseExpression "env.A+1" "f" = .ok sum :=
    Rule.readText_ok_iff.2 ⟨_, ⟨1, [.endOfInput ⟨1, 8⟩]⟩, hlist, rfl⟩
  refine ⟨⟨rfl, hsum, rfl⟩, rfl, ?_⟩
  obtain ⟨string, -, hstring, -, -, -, henv⟩ := evalValue_holeSource (q := '"') rfl hsum rfl
  obtain ⟨name, default, hread, hvalue⟩ := henv ⟨"A+1".toList, by decide, by decide⟩
  obtain ⟨rfl, rfl⟩ : "A+1" = name ∧ "" = default := Hole.reference.inj hread
  refine ⟨string, hstring, ?_⟩
  rw [hvalue src]
  rfl

end Node

end BlockConfig
