import BlockConfig.Proofs.Eval.Positions
import BlockConfig.Proofs.Lexing.Cutting

/-!
The conditions of an `IF` chain and of a choice.

Both ask for a truth value, each in its own way. An `IF` takes the result of a call apart first and
then wants nothing but a truth value (`Eval.condition`). A choice looks at the value as it is, and
takes a truth value that is the first of two as well (`Eval.choose`). The two agree on every value
but these pairs (`Value.IsPair`): a list of two that begins with a truth value, and a reply with a
truth value and an error. So an `IF` and a choice between the same two values do the same from every
state, or both fail, exactly if the condition has no such value (`Node.sameAssignment_iff`).
-/

set_option autoImplicit false

namespace BlockConfig

/-! ## 1. Two ways to take a condition -/

namespace Value

/-- A value that only a choice takes for a truth value: a list of two that begins with it, or a
reply that has it as a result beside an error. -/
inductive IsPair (b : Bool) : Value → Prop
  | list (v : Value) : IsPair b (list [bool b, v])
  | reply (e : Value) (h : e.isNullish = false) : IsPair b (tuple [bool b, e])

end Value

namespace Eval

/-- How an `IF` takes the value of its condition. -/
def condition (source : Node) (v : Value) : Except EvalError Bool :=
  (v.unwrapCall source).bind holds

/-- A choice takes a pair, and an `IF` does not. -/
theorem conditions_of_isPair {b : Bool} {v : Value} (h : v.IsPair b) (source : Node) :
    choose v = .ok b ∧ ∃ e, condition source v = .error e := by
  cases h with
  | list v => exact ⟨rfl, _, rfl⟩
  | reply e he =>
    refine ⟨rfl, .function source.callName e.print, ?_⟩
    rw [condition, Value.unwrapCall, he]
    rfl

theorem holds_of_not_bool {v : Value} (h : ∀ b, v ≠ .bool b) : ∃ e, holds v = .error e := by
  cases v with
  | bool b => exact absurd rfl (h b)
  | _ => exact ⟨_, rfl⟩

/-- Both take one truth value for any value that is no pair, or neither takes it for one. -/
theorem conditions_of_not_isPair {v : Value} (h : ∀ b, ¬v.IsPair b) (source : Node) :
    (∃ b, choose v = .ok b ∧ condition source v = .ok b) ∨
      ((∃ e, choose v = .error e) ∧ ∃ e, condition source v = .error e) := by
  unfold choose
  split
  next b => exact .inl ⟨b, rfl, rfl⟩
  next b e =>
    -- The reply of a call has no error, or it would be a pair.
    have he : e.isNullish = true := by
      by_contra hno
      exact h b (.reply e (Bool.eq_false_iff.2 hno))
    refine .inl ⟨b, rfl, ?_⟩
    rw [condition, Value.unwrapCall, he]
    rfl
  next b x => exact absurd (.list x) (h b)
  next hbool htuple hlist =>
    refine .inr ⟨⟨_, rfl⟩, ?_⟩
    unfold condition Value.unwrapCall
    split
    next x e =>
      split
      · -- Without an error it is the result that would have to be a truth value.
        exact holds_of_not_bool fun b hb => htuple b e (by rw [hb])
      · exact ⟨_, rfl⟩
    next => exact holds_of_not_bool hbool

end Eval

/-! ## 2. Two statements -/

namespace Node

/-- An assignment of `i` if a condition holds and of `j` if not. -/
def ifElse (name : String) (c : Node) (i j : Int64) : Node :=
  .control [⟨some c, [.assign ⟨name, .start⟩ (.literal (.int i)) .equals], .start⟩,
    ⟨none, [.assign ⟨name, .start⟩ (.literal (.int j)) .equals], .start⟩]

/-- An assignment of a choice between `i` and `j`. -/
def assignChoice (name : String) (c : Node) (i j : Int64) : Node :=
  .assign ⟨name, .start⟩ (.ternary c (.literal (.int i)) (.literal (.int j))) .equals

end Node

namespace State

/-- The state with `i` or `j` under a name. -/
def chosen (s : State) (name : String) (i j : Int64) (b : Bool) : State :=
  { s with scope := s.scope.set name (.int (if b then i else j)) }

end State

namespace Node

open Eval

variable {src : Source} {hooks : Hooks} {name : String} {c : Node} {i j : Int64}

/-- An `IF` runs one of its branches in the state that the condition ends in. -/
theorem evalWith_ifElse (s : State) :
    (ifElse name c i j).evalWith src hooks s =
      match c.evalWith src hooks s with
      | (.error fault, t) => (.error fault, t)
      | (.ok v, t) =>
        match condition c v with
        | .error e => (.error (.error e), t)
        | .ok b => (.ok .undefined, t.chosen name i j b) := by
  rw [ifElse, evalWith, evalBranches]
  dsimp only
  rw [bind_apply]
  cases c.evalWith src hooks s with
  | mk outcome t =>
    cases outcome with
    | error fault => rfl
    | ok v =>
      dsimp only
      rw [condition]
      cases v.unwrapCall c with
      | error e => rfl
      | ok u =>
        -- What is left is to test the value that was taken out.
        have hunwrapped : (Except.ok u : Except EvalError Value).bind holds = holds u := rfl
        show (ofExcept (holds u) >>= _) t = _
        rw [bind_apply, hunwrapped]
        cases holds u with
        | error e => rfl
        | ok b => cases b <;> rfl

/-- A choice is made in the state that the condition ends in, and then assigned. -/
theorem evalWith_assignChoice (s : State) :
    (assignChoice name c i j).evalWith src hooks s =
      match c.evalWith src hooks s with
      | (.error fault, t) => (.error fault, t)
      | (.ok v, t) =>
        match choose v with
        | .error e => (.error (.error e), t)
        | .ok b => (.ok (.map [(name, .int (if b then i else j))]), t.chosen name i j b) := by
  rw [assignChoice, evalWith, bind_apply, attempt, evalWith, bind_apply]
  cases c.evalWith src hooks s with
  | mk outcome t =>
    cases outcome with
    | error fault => cases fault <;> rfl
    | ok v =>
      dsimp only
      rw [bind_apply]
      cases choose v with
      | error e => rfl
      | ok b => cases b <;> rfl

end Node

/-! ## 3. When they do the same -/

namespace Eval

/-- Both succeed and end in the state of one assignment, or both fail and end in one state. -/
inductive SameAssignment (name : String) (i j : Int64) :
    Except Fault Value × State → Except Fault Value × State → Prop
  | assigned (v w : Value) (t : State) (b : Bool) :
      SameAssignment name i j (.ok v, t.chosen name i j b) (.ok w, t.chosen name i j b)
  | failed (fault fault' : Fault) (t : State) :
      SameAssignment name i j (.error fault, t) (.error fault', t)

/-- What is alike succeeds and fails alike, and ends in the same state. -/
theorem SameAssignment.congr {name : String} {i j : Int64} {x x' y y' : Eval Value}
    (hx : Agree Eq x x') (hy : Agree Eq y y') {s : State}
    (h : SameAssignment name i j (x s) (y s)) : SameAssignment name i j (x' s) (y' s) := by
  obtain ⟨hxa, hxs⟩ := hx s
  obtain ⟨hya, hys⟩ := hy s
  generalize x s = a at h hxa hxs
  generalize y s = b at h hya hys
  generalize x' s = a' at hxa hxs
  generalize y' s = b' at hya hys
  obtain ⟨a', t'⟩ := a'
  obtain ⟨b', u'⟩ := b'
  cases h with
  | assigned v w t b =>
    obtain rfl : _ = t' := hxs
    obtain rfl : _ = u' := hys
    cases hxa with
    | result => cases hya with
      | result => exact .assigned _ _ t b
  | failed fault fault' t =>
    obtain rfl : _ = t' := hxs
    obtain rfl : _ = u' := hys
    cases hxa with
    | error => cases hya with
      | error | abort => exact .failed _ _ _
    | abort => cases hya with
      | error | abort => exact .failed _ _ _

end Eval

namespace Node

open Eval Rule

variable {src : Source} {hooks : Hooks} {name : String} {c : Node} {i j : Int64} {s t : State}
  {v : Value} {b : Bool}

/-- Of a pair the choice takes the truth value, and the `IF` fails. -/
theorem evalWith_of_isPair (h : c.evalWith src hooks s = (.ok v, t)) (hpair : v.IsPair b) :
    (∃ e, (ifElse name c i j).evalWith src hooks s = (.error (.error e), t)) ∧
      ∃ w, (assignChoice name c i j).evalWith src hooks s = (.ok w, t.chosen name i j b) := by
  obtain ⟨hchoose, e, hcondition⟩ := conditions_of_isPair hpair c
  rw [evalWith_ifElse, evalWith_assignChoice, h]
  dsimp only
  rw [hchoose, hcondition]
  exact ⟨⟨e, rfl⟩, _, rfl⟩

/-- If the condition gives no pair of a truth value and something else, the chain and the choice assign the
same value or fail both. -/
theorem sameAssignment_of_not_isPair
    (h : ∀ v t, c.evalWith src hooks s = (.ok v, t) → ∀ b, ¬v.IsPair b) :
    SameAssignment name i j ((ifElse name c i j).evalWith src hooks s)
      ((assignChoice name c i j).evalWith src hooks s) := by
  rw [evalWith_ifElse, evalWith_assignChoice]
  cases hc : c.evalWith src hooks s with
  | mk outcome t =>
    cases outcome with
    | error fault => exact .failed fault fault t
    | ok v =>
      dsimp only
      rcases conditions_of_not_isPair (h v t hc) c with
        ⟨b, hchoose, hcondition⟩ | ⟨⟨e, hchoose⟩, e', hcondition⟩
      · rw [hchoose, hcondition]
        exact .assigned _ _ t b
      · rw [hchoose, hcondition]
        exact .failed _ _ t

/-- **An `IF` and a choice take the same conditions, apart from pairs.** Wherever the two statements
stand, they assign the same from every state or both fail, unless the value of the condition is a
pair; then the choice assigns and the `IF` fails. -/
theorem sameAssignment_iff {n m : Node} (hn : n.unplaced = (ifElse name c i j).unplaced)
    (hm : m.unplaced = (assignChoice name c i j).unplaced) (src : Source) (hooks : Hooks)
    (s : State) :
    (SameAssignment name i j (n.evalWith src hooks s) (m.evalWith src hooks s) ↔
      ∀ v t, c.evalWith src hooks s = (.ok v, t) → ∀ b, ¬v.IsPair b) ∧
    ∀ v t b, c.evalWith src hooks s = (.ok v, t) → v.IsPair b →
      (∃ e, n.evalWith src hooks s = (.error (.error e), t)) ∧
        ∃ w, m.evalWith src hooks s = (.ok w, t.chosen name i j b) := by
  have hif : Agree Eq ((ifElse name c i j).evalWith src hooks) (n.evalWith src hooks) :=
    agree_evalWith hn.symm
  have hchoice : Agree Eq ((assignChoice name c i j).evalWith src hooks) (m.evalWith src hooks) :=
    agree_evalWith hm.symm
  have hpair : ∀ v t b, c.evalWith src hooks s = (.ok v, t) → v.IsPair b →
      (∃ e, n.evalWith src hooks s = (.error (.error e), t)) ∧
        ∃ w, m.evalWith src hooks s = (.ok w, t.chosen name i j b) := by
    intro v t b hv hb
    obtain ⟨⟨e, he⟩, w, hw⟩ := @evalWith_of_isPair src hooks name c i j s t v b hv hb
    exact ⟨hif.exists_error he, w, hchoice.result_eq hw⟩
  refine ⟨⟨fun hsame v t hv b hb => ?_, fun hplain => ?_⟩, hpair⟩
  · -- Of a pair one of the two makes something and the other fails.
    obtain ⟨⟨e, hfails⟩, w, hassigns⟩ := hpair v t b hv hb
    rw [hfails, hassigns] at hsame
    cases hsame
  · exact (sameAssignment_of_not_isPair hplain).congr hif hchoice

/-- The chain of the example, as it is read. -/
theorem parse_ifPair : parse "IF ([true, 1]) \x7b x = 1 \x7d ELSE \x7b x = 2 \x7d" "some.bcl" =
    .ok [.control [⟨some (.list [.literal (.bool true), .literal (.int 1)]),
        [.assign ⟨"x", ⟨1, 18⟩⟩ (.literal (.int 1)) .equals], ⟨1, 1⟩⟩,
      ⟨none, [.assign ⟨"x", ⟨1, 33⟩⟩ (.literal (.int 2)) .equals], ⟨1, 26⟩⟩]] := by
  have hlist : Token.list "IF ([true, 1]) \x7b x = 1 \x7d ELSE \x7b x = 2 \x7d".toList =
      .ok [⟨.ifWord, "IF", ⟨1, 1⟩, none, none⟩, ⟨.lparen, "(", ⟨1, 4⟩, none, none⟩,
        ⟨.lbracket, "[", ⟨1, 5⟩, none, none⟩, ⟨.bool, "true", ⟨1, 6⟩, none, none⟩,
        ⟨.comma, ",", ⟨1, 10⟩, none, none⟩, ⟨.number, "1", ⟨1, 12⟩, none, none⟩,
        ⟨.rbracket, "]", ⟨1, 13⟩, none, none⟩, ⟨.rparen, ")", ⟨1, 14⟩, none, none⟩,
        ⟨.lbrace, "\x7b", ⟨1, 16⟩, none, none⟩, ⟨.ident, "x", ⟨1, 18⟩, none, none⟩,
        ⟨.assign, "=", ⟨1, 20⟩, none, none⟩, ⟨.number, "1", ⟨1, 22⟩, none, none⟩,
        ⟨.rbrace, "\x7d", ⟨1, 24⟩, none, none⟩, ⟨.elseWord, "ELSE", ⟨1, 26⟩, none, none⟩,
        ⟨.lbrace, "\x7b", ⟨1, 31⟩, none, none⟩, ⟨.ident, "x", ⟨1, 33⟩, none, none⟩,
        ⟨.assign, "=", ⟨1, 35⟩, none, none⟩, ⟨.number, "2", ⟨1, 37⟩, none, none⟩,
        ⟨.rbrace, "\x7d", ⟨1, 39⟩, none, none⟩, .endOfInput ⟨1, 40⟩] := by
    iterate 19 refine Token.listFrom_step rfl rfl rfl ?_
    exact Token.listFrom_nil _
  exact readText_ok_iff.2 ⟨_, ⟨1, [.endOfInput ⟨1, 40⟩]⟩, hlist, rfl⟩

/-- The choice of the example, as it is read. -/
theorem parse_choosePair : parse "x = [true, 1] ? 1 : 2" "some.bcl" =
    .ok [.assign ⟨"x", ⟨1, 1⟩⟩ (.ternary (.list [.literal (.bool true), .literal (.int 1)])
      (.literal (.int 1)) (.literal (.int 2))) .equals] := by
  have hlist : Token.list "x = [true, 1] ? 1 : 2".toList =
      .ok [⟨.ident, "x", ⟨1, 1⟩, none, none⟩, ⟨.assign, "=", ⟨1, 3⟩, none, none⟩,
        ⟨.lbracket, "[", ⟨1, 5⟩, none, none⟩, ⟨.bool, "true", ⟨1, 6⟩, none, none⟩,
        ⟨.comma, ",", ⟨1, 10⟩, none, none⟩, ⟨.number, "1", ⟨1, 12⟩, none, none⟩,
        ⟨.rbracket, "]", ⟨1, 13⟩, none, none⟩, ⟨.question, "?", ⟨1, 15⟩, none, none⟩,
        ⟨.number, "1", ⟨1, 17⟩, none, none⟩, ⟨.colon, ":", ⟨1, 19⟩, none, none⟩,
        ⟨.number, "2", ⟨1, 21⟩, none, none⟩, .endOfInput ⟨1, 22⟩] := by
    iterate 11 refine Token.listFrom_step rfl rfl rfl ?_
    exact Token.listFrom_nil _
  exact readText_ok_iff.2 ⟨_, ⟨1, [.endOfInput ⟨1, 22⟩]⟩, hlist, rfl⟩

/-- A condition that the two take differently: a list of two that begins with a truth value. -/
theorem sameAssignment_iff_list :
    ∃ n m, parse "IF ([true, 1]) \x7b x = 1 \x7d ELSE \x7b x = 2 \x7d" "some.bcl" = .ok [n] ∧
      parse "x = [true, 1] ? 1 : 2" "some.bcl" = .ok [m] ∧
      ∀ (src : Source) (hooks : Hooks) (s : State),
        (∃ e, n.evalWith src hooks s = (.error (.error e), s)) ∧
          ∃ w, m.evalWith src hooks s = (.ok w, s.chosen "x" 1 2 true) := by
  refine ⟨_, _, parse_ifPair, parse_choosePair, fun src hooks s => ?_⟩
  -- The value of the condition is the pair itself.
  have hvalue : (Node.list [.literal (.bool true), .literal (.int 1)]).evalWith src hooks s =
      (.ok (.list [.bool true, .int 1]), s) := rfl
  have hboth := @sameAssignment_iff "x" (.list [.literal (.bool true), .literal (.int 1)]) 1 2
    _ _ rfl rfl src hooks s
  exact hboth.2 _ s true hvalue (.list (.int 1))

end Node

end BlockConfig
