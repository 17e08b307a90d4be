import BlockConfig.Proofs.Eval.Positions
import BlockConfig.Proofs.Grammar.Braces
import BlockConfig.Proofs.Grammar.Concatenation
import BlockConfig.Proofs.Lexing.Rendering

/-!
One value for several names.

A statement `x, y = e` is read as one destructuring: the names in front of the sign and one source
behind it, which is read as `e` is read alone (`exists_parse_destructure`). Its evaluation is one
evaluation of the source, and everything else happens behind it. What the source gives is taken
apart into its elements, and the names are bound to them in order; so an element is never looked at
in a scope in which one of the names has its new value already, and swapping two names works. A
source that fails binds nothing, and the statement succeeds.

`Destructures` says this of two outcomes, that of the source and that of the statement, both with
the states they end in. The statement's world is the one that the source ends in, so calls, requests
and commands are those of the source and none is made twice.
-/

set_option autoImplicit false

namespace BlockConfig

open Text Cursor Rule Node

/-! ## 1. Reading -/

namespace Rule

/-- Names, an equals sign and an expression up to the end of input are a destructuring. Its source
is the expression that is read of its tokens alone, moved to where it stands. -/
theorem beginsWith_destructure {names : List String} {front init comments : List Token}
    {sign eof : Token} {n : Nat} {value : Node} {d : Cursor} {m : Displacement}
    (hn : SpellsNames names front) (htwo : 2 ≤ names.length) (hsign : sign.kind = .assign)
    (hline : sign.pos.line = 1 + m.lines)
    (hv : (expression n).Gives (.ofTokens (init ++ [eof])) value d) (heof : eof.kind = .eof)
    (hd : d.rest = comments ++ [eof]) (hcomments : ∀ t ∈ comments, t.kind = .comment) :
    ∃ targets, targets.map Target.name = names ∧
      BeginsWith (front ++ sign :: (init.map (Token.moved m) ++ [eof.moved m]))
        (.destructure targets (value.mapPos (Position.moved m)) ::
          comments.map fun t => .comment t.literal) [eof.moved m] := by
  have hne : init.map (Token.moved m) ++ [eof.moved m] ≠ [] := by simp
  have hnames : names ≠ [] := by
    rintro rfl
    simp at htwo
  obtain ⟨targets, htargets, rfl⟩ := targetList?_of_spells hn hnames hsign
    (init.map (Token.moved m) ++ [eof.moved m])
  obtain ⟨t, comma, rest, rfl, ht, hcomma⟩ := second_of_spellsNames hn htwo
  -- The expression is read alone, and then read where it stands: nothing in front of it matters but the
  -- line.
  obtain ⟨line', hvalue⟩ :=
    expression_of_parted hv hd (clean_ending heof).parted (apart_ending heof)
  rw [List.length_map] at htwo
  have hread := @beginsWith_comments [eof.moved m] (by simp) (comments.map (Token.moved m))
    (by simpa using hcomments)
  rw [List.map_map] at hread
  refine ⟨targets, rfl, .cons ?_ (fun line => ?_) hread⟩
  · rintro _ ⟨⟩
    exact .inl ht
  · -- Behind the expression there is a comment or the end of input, and no further value.
    have hbehind : ((Cursor.mk line' (comments.map (Token.moved m) ++ [eof.moved m])).peekAt
        0).kind ≠ .comma := by
      cases comments with
      | nil => simp [Cursor.peekAt, heof]
      | cons u us =>
        have hu : u.kind = .comment := hcomments u (by simp)
        simp [Cursor.peekAt, hu]
    obtain ⟨n, rfl⟩ : ∃ k, n = k + 1 := by
      cases n with
      | zero => exact absurd hv (not_gives_exhausted _ _ _)
      | succ n => exact ⟨n, rfl⟩
    refine ⟨n + 3, line', (gives_statement _ _ _ _).2 (.named ?_ ?_
      ((gives_blockOrAssignment _ _ _ _).2 ?_))⟩
    · simp [Token.isName, ht]
    · exact arrowAhead?_eq_none (by simp [hcomma]) (by simp [Token.isName, hcomma])
    · rw [← hline] at hvalue
      exact .destructure ht hcomma htargets hvalue (moreValues_of_not_comma hbehind) (by omega)

end Rule

namespace Node

/-- Names and an equals sign at the beginning of a text, which end on the line of the sign. -/
theorem cuts_targets {names : List String} (hnames : ∀ s ∈ names, IsIdentifier s) :
    ∃ front sign, SpellsNames names front ∧ sign.kind = .assign ∧
      sign.pos.line = (Position.behind (join ", " names ++ " = ").toList).line ∧
      Cuts Anything .start (join ", " names ++ " = ").toList (front ++ [sign]) := by
  obtain ⟨front, hfront, hcutNames⟩ := cuts_names hnames .start
  obtain ⟨sign, hsign, hcutSign⟩ :=
    cuts_sign (Position.start.advance (join ", " names).toList) (k := .assign) (.inl rfl)
  have htext : (join ", " names ++ " = ").toList =
      (join ", " names).toList ++ ' ' :: ((Kind.symbol .assign).toList ++ [' ']) :=
    String.toList_append
  have hcut := hcutNames.append hcutSign fun rest _ => loose_blank _
  -- No line feed stands between the place of the sign and that behind it.
  obtain ⟨hbelow, habove⟩ := hcutSign.lines sign (by simp)
  rw [Position.line_advance _ (_ :: _)] at habove
  have hcount : (' ' :: ((Kind.symbol .assign).toList ++ [' '])).count '\n' = 0 := by decide
  have hline : (Position.behind (join ", " names ++ " = ").toList).line =
      (Position.start.advance (join ", " names).toList).line := by
    rw [← Position.start_advance, htext, Position.advance_append, Position.line_advance _ (_ :: _),
      hcount, Nat.add_zero]
  refine ⟨front, sign, hfront, hsign, ?_, ?_⟩
  · omega
  · rw [htext]
    exact hcut

/-- **Names, an equals sign and an expression are a destructuring.** Apart from where its parts
stand, the source is the expression as it is read alone; the comments behind the expression are
statements of their own. -/
theorem exists_parse_destructure {names : List String} (hnames : ∀ s ∈ names, IsIdentifier s)
    (htwo : 2 ≤ names.length) {e file : String} {node : Node}
    (he : parseExpression e file = .ok node) (file' : String) :
    ∃ targets source comments, targets.map Target.name = names ∧
      source.unplaced = node.unplaced ∧ (∀ c ∈ comments, c.isComment = true) ∧
      parse (join ", " names ++ " = " ++ e) file' =
        .ok (.destructure targets source :: comments) := by
  obtain ⟨tokens, d, htokens, hlone⟩ := readText_ok_iff.1 he
  obtain ⟨init, eof, rfl, heof, hinner, -⟩ := Token.ended_of_list htokens
  obtain ⟨d, comments, hexpression, hd, hcomments⟩ := exists_of_loneExpression hinner heof hlone
  obtain ⟨front, sign, hfront, hsign, hline, hcut⟩ := cuts_targets hnames
  generalize hhead : (join ", " names ++ " = ") = head at hline hcut
  -- What stands behind the sign is the expression, moved by what stands in front of it.
  generalize hm : Displacement.upTo (Position.behind head.toList) = m
  have hplace : Position.start.advance head.toList = Position.start.moved m := by
    rw [← hm, Position.start_advance]
    exact (Position.start_moved_upTo (Nat.le_add_right 1 _) (Nat.le_add_right 1 _)).symm
  have hlineMoved : sign.pos.line = 1 + m.lines := by
    rw [hline, ← Position.start_advance, hplace, Position.line_moved]
    rfl
  have hlist : Token.list (head ++ e).toList =
      .ok (front ++ sign :: (init.map (Token.moved m) ++ [eof.moved m])) := by
    rw [String.toList_append, Token.list, hcut.cut e.toList trivial, hplace,
      Token.listFrom_moved m (Nat.le_refl 1), ← Token.list, htokens]
    simp [Except.map, Except.mapError]
  obtain ⟨targets, htargets, hbegins⟩ := beginsWith_destructure hfront htwo hsign hlineMoved
    hexpression heof hd hcomments
  have hended : Cursor.Ended (.ofTokens
      (front ++ sign :: (init.map (Token.moved m) ++ [eof.moved m]))) := by
    have hlast : Cursor.Ended ⟨0, [eof.moved m]⟩ := ⟨⟨_, rfl, heof⟩, fun _ _ => trivial⟩
    have hfull := @ended_append [eof.moved m] 0 0 (front ++ sign :: init.map (Token.moved m)) hlast
    rw [List.append_assoc] at hfull
    exact hfull
  obtain ⟨d', hdocument⟩ := hbegins.document heof hended
    (k := budget (front ++ sign :: (init.map (Token.moved m) ++ [eof.moved m])))
    (by unfold budget; omega)
  refine ⟨targets, node.mapPos (Position.moved m), comments.map fun t => .comment t.literal,
    htargets, unplaced_mapPos _ node, by simp [isComment], ?_⟩
  exact readText_ok_iff.2 ⟨_, d', hlist, hdocument⟩

end Node

/-! ## 2. Elements -/

namespace Value

/-- The elements of a value: the members of a tuple or a list; any other value is its only one. -/
def elements : Value → List Value
  | tuple items | list items => items
  | v => [v]

/-- A tuple as a call gives it: a result and an error. -/
def IsReply (v : Value) : Prop :=
  ∃ result error, v = tuple [result, error]

/-- An element is one of those that the value is taken for having, or there are too few. -/
theorem element_eq (v : Value) (index : Nat) :
    v.element index =
      match v.elements[index]? with
      | some x => .ok x
      | none => .error (.tupleIndex index v.elements.length) := by
  cases v with
  | tuple items | list items => rfl
  | _ =>
    -- A value that is its own element has no other.
    cases index <;> rfl

theorem unwrapCall_of_not_isReply {v : Value} (h : ¬v.IsReply) (source : Node) :
    v.unwrapCall source = .ok v := by
  unfold unwrapCall
  split
  next result error => exact absurd ⟨result, error, rfl⟩ h
  next => rfl

end Value

/-! ## 3. Binding several names -/

namespace Scope

/-- The scope in which names are bound to values, each to that in its place; a block goes under its
new name. Names without a value stay as they are. -/
def bindEach (s : Scope) (names : List String) (items : List Value) : Scope :=
  (names.zip items).foldl (fun s p => s.set p.1 (p.2.bound p.1)) s

@[simp] theorem bindEach_nil_right (s : Scope) (names : List String) : s.bindEach names [] = s := by
  rw [bindEach, List.zip_nil_right]
  rfl

theorem bindEach_cons (s : Scope) (name : String) (names : List String) (v : Value)
    (items : List Value) : s.bindEach (name :: names) (v :: items) =
      (s.set name (v.bound name)).bindEach names items := by
  simp only [bindEach, List.zip_cons_cons, List.foldl_cons]

/-- Binding happens in the innermost scope. -/
theorem outer_bindEach (s : Scope) (names : List String) (items : List Value) :
    (s.bindEach names items).outer = s.outer := by
  induction names generalizing s items with
  | nil => rfl
  | cons name names ih =>
    cases items with
    | nil => rw [bindEach_nil_right]
    | cons v items =>
      rw [bindEach_cons, ih]
      rfl

/-- Other names are not touched. -/
theorem findOwn?_bindEach_of_not_mem {names : List String} {name : String} (h : name ∉ names)
    (s : Scope) (items : List Value) :
    (s.bindEach names items).findOwn? name = s.findOwn? name := by
  induction names generalizing s items with
  | nil => rfl
  | cons first names ih =>
    obtain ⟨hfirst, hnames⟩ := not_or.1 (mt List.mem_cons.2 h)
    cases items with
    | nil => rw [bindEach_nil_right]
    | cons v items => rw [bindEach_cons, ih hnames, findOwn?_set, if_neg hfirst]

/-- **Each name is bound to the value in its place,** and to what it was bound to before if there is
none. -/
theorem findOwn?_bindEach {names : List String} (hdistinct : names.Nodup) {index : Nat}
    {name : String} (h : names[index]? = some name) (s : Scope) (items : List Value) :
    (s.bindEach names items).findOwn? name =
      ((items[index]?).map (Value.bound name)).or (s.findOwn? name) := by
  induction names generalizing s items index with
  | nil => cases h
  | cons first names ih =>
    obtain ⟨hfirst, hnames⟩ := List.nodup_cons.1 hdistinct
    cases items with
    | nil =>
      rw [bindEach_nil_right]
      rfl
    | cons v items =>
      rw [bindEach_cons]
      cases index with
      | zero =>
        -- The names behind the first one are others.
        obtain rfl : first = name := Option.some.inj h
        rw [findOwn?_bindEach_of_not_mem hfirst, findOwn?_set, if_pos rfl]
        rfl
      | succ index =>
        have hne : name ≠ first := by
          rintro rfl
          exact hfirst (List.mem_of_getElem? h)
        rw [ih hnames h, findOwn?_set, if_neg hne]
        rfl

end Scope

namespace Eval

/-- A value that could not be had binds nothing. -/
theorem bindElements_error (source : Node) (e : EvalError) (index : Nat) (targets : List Target)
    (s : State) : bindElements source (.error e) index targets s = (.ok [], s) := by
  induction targets generalizing index with
  | nil => rfl
  | cons target targets ih =>
    rw [bindElements, bind_apply]
    show (bindElements source (.error e) (index + 1) targets >>= _) s = _
    rw [bind_apply, ih]
    rfl

/-- The elements of a value from one place on are bound to the targets in order. -/
theorem bindElements_apply (source : Node) {v : Value} (hplain : ∀ x ∈ v.elements, ¬x.IsReply)
    (index : Nat) (targets : List Target) (s : State) :
    ∃ vars, bindElements source (.ok v) index targets s = (.ok vars,
      { s with scope := s.scope.bindEach (targets.map Target.name) (v.elements.drop index) }) := by
  induction targets generalizing index s with
  | nil => exact ⟨[], rfl⟩
  | cons target targets ih =>
    rw [bindElements]
    show ∃ vars, (bindElement target.name (.extract source index) (v.element index) >>= _) s = _
    cases hx : v.elements[index]? with
    | some x =>
      have helement : v.element index = .ok x := by rw [Value.element_eq, hx]
      have hlength := (List.getElem?_eq_some_iff.1 hx).1
      have hdrop : v.elements.drop index = x :: v.elements.drop (index + 1) := by
        rw [List.drop_eq_getElem_cons hlength, (List.getElem?_eq_some_iff.1 hx).2]
      have hreply : ¬x.IsReply := hplain x (List.mem_of_getElem? hx)
      have hbound : bindElement target.name (.extract source index) (.ok x) s =
          (.ok [(target.name, x.bound target.name)],
            { s with scope := s.scope.set target.name (x.bound target.name) }) := by
        rw [bindElement, Eval.bind, Value.unwrapCall_of_not_isReply hreply]
        rfl
      obtain ⟨vars, hvars⟩ :=
        ih (index + 1) { s with scope := s.scope.set target.name (x.bound target.name) }
      refine ⟨Table.union [(target.name, x.bound target.name)] vars, ?_⟩
      rw [helement, bind_apply, hbound]
      dsimp only
      rw [bind_apply, hvars, hdrop, List.map_cons, Scope.bindEach_cons]
      rfl
    | none =>
      -- Behind the last element there is none for the other targets either.
      have helement : v.element index = .error (.tupleIndex index v.elements.length) := by
        rw [Value.element_eq, hx]
      have hlength := List.getElem?_eq_none_iff.1 hx
      have hdrop : v.elements.drop index = [] := List.drop_eq_nil_iff.2 hlength
      have hnext : v.elements.drop (index + 1) = [] := List.drop_eq_nil_iff.2 (by omega)
      obtain ⟨vars, hvars⟩ := ih (index + 1) s
      rw [hnext, Scope.bindEach_nil_right] at hvars
      refine ⟨Table.union [] vars, ?_⟩
      rw [helement, bind_apply]
      show (bindElements source (.ok v) (index + 1) targets >>= _) s = _
      rw [bind_apply, hvars, hdrop, Scope.bindEach_nil_right]
      rfl

/-! ## 4. One evaluation of the source -/

/-- What becomes of the outcome of a source, and of the state in which it ends, when it is taken
apart for names. -/
inductive Destructures (names : List String) :
    Except Fault Value × State → Except Fault Value × State → Prop
  | bound (v : Value) (t : State) (vars : Table Value) :
      Destructures names (.ok v, t)
        (.ok (.map vars), { t with scope := t.scope.bindEach names v.elements })
  | failed (e : EvalError) (t : State) :
      Destructures names (.error (.error e), t) (.ok (.map []), t)
  | aborted (message : String) (t : State) :
      Destructures names (.error (.abort message), t) (.error (.abort message), t)

/-- Outcomes that are alike are taken apart alike. -/
theorem Destructures.congr {names : List String} {x y : Eval Value} (h : Agree Eq x y) {s : State}
    {result : Except Fault Value × State} (hx : Destructures names (x s) result) :
    Destructures names (y s) result := by
  obtain ⟨houtcome, hstate⟩ := h s
  generalize x s = a at hx houtcome hstate
  generalize y s = b at houtcome hstate
  obtain ⟨b, t⟩ := b
  cases hx with
  | bound v t' vars =>
    obtain rfl : t' = t := hstate
    cases houtcome with
    | result hv => exact hv ▸ .bound v t' vars
  | failed e t' =>
    obtain rfl : t' = t := hstate
    cases houtcome with
    | error => exact .failed _ t'
  | aborted message t' =>
    obtain rfl : t' = t := hstate
    cases houtcome with
    | abort => exact .aborted message t'

end Eval

namespace Node

variable {src : Source} {hooks : Hooks}

/-- A destructuring evaluates its source once and binds its targets behind that. -/
theorem destructures_evalWith (targets : List Target) (source : Node) (s : State)
    (hplain : ∀ v t, source.evalWith src hooks s = (.ok v, t) → ∀ x ∈ v.elements, ¬x.IsReply) :
    Eval.Destructures (targets.map Target.name) (source.evalWith src hooks s)
      ((destructure targets source).evalWith src hooks s) := by
  rw [evalWith, Eval.bind_apply, Eval.attempt]
  cases hsource : source.evalWith src hooks s with
  | mk outcome t =>
    cases outcome with
    | ok v =>
      obtain ⟨vars, hvars⟩ := Eval.bindElements_apply source (hplain v t hsource) 0 targets t
      rw [List.drop_zero] at hvars
      dsimp only
      rw [Eval.bind_apply, hvars]
      exact .bound v t vars
    | error fault =>
      cases fault with
      | error e =>
        dsimp only
        rw [Eval.bind_apply, Eval.bindElements_error]
        exact .failed e t
      | abort message => exact .aborted message t

/-- **Destructuring runs its source once and binds simultaneously.** From every state, what the
statement `x, y, … = e` does is described by one evaluation of `e`: nothing is bound if it fails, and
otherwise its elements are bound to the names in order in the scope that it ends in. -/
theorem destructures_of_parse {names : List String} (hnames : ∀ s ∈ names, IsIdentifier s)
    (htwo : 2 ≤ names.length) {e file : String} {node : Node}
    (he : parseExpression e file = .ok node) (file' : String) :
    ∃ statement comments,
      parse (join ", " names ++ " = " ++ e) file' = .ok (statement :: comments) ∧
      (∀ c ∈ comments, c.isComment = true) ∧
      ∀ (src : Source) (hooks : Hooks) (s : State),
        (∀ v t, node.evalWith src hooks s = (.ok v, t) → ∀ x ∈ v.elements, ¬x.IsReply) →
        Eval.Destructures names (node.evalWith src hooks s)
          (statement.evalWith src hooks s) := by
  obtain ⟨targets, source, comments, rfl, hsource, hcomments, hparse⟩ :=
    exists_parse_destructure hnames htwo he file'
  refine ⟨.destructure targets source, comments, hparse, hcomments, fun src hooks s hplain => ?_⟩
  -- The source stands elsewhere than the expression alone, which matters for places in errors only.
  have hagree : Eval.Agree Eq (source.evalWith src hooks) (node.evalWith src hooks) :=
    agree_evalWith hsource
  refine Eval.Destructures.congr hagree (destructures_evalWith targets source s ?_)
  exact fun v t hv => hplain v t (hagree.result_eq hv)

theorem parseExpression_swap :
    parseExpression "[b, a]" "some.bcl" = .ok (.list [.ident "b", .ident "a"]) := by
  have hlist : Token.list "[b, a]".toList =
      .ok [⟨.lbracket, "[", ⟨1, 1⟩, none, none⟩, ⟨.ident, "b", ⟨1, 2⟩, none, none⟩,
        ⟨.comma, ",", ⟨1, 3⟩, none, none⟩, ⟨.ident, "a", ⟨1, 5⟩, none, none⟩,
        ⟨.rbracket, "]", ⟨1, 6⟩, none, none⟩, .endOfInput ⟨1, 7⟩] := by
    iterate 5 refine Token.listFrom_step rfl rfl rfl ?_
    exact Token.listFrom_nil _
  exact readText_ok_iff.2 ⟨_, ⟨1, [.endOfInput ⟨1, 7⟩]⟩, hlist, rfl⟩

/-- Two names are swapped: both elements are evaluated before one of them is bound. -/
theorem destructures_of_parse_swap :
    ∃ statement comments, parse "a, b = [b, a]" "some.bcl" = .ok (statement :: comments) ∧
      ∀ (src : Source) (hooks : Hooks) (w : World),
        (statement.evalWith src hooks ⟨.root [("a", .int 1), ("b", .int 2)], w⟩).2 =
          ⟨.root [("a", .int 2), ("b", .int 1)], w⟩ := by
  have hnames : ∀ s ∈ ["a", "b"], IsIdentifier s := by
    intro s hs
    refine ((isPlainName_iff s).1 ?_).1
    rcases List.mem_cons.1 hs with rfl | hs
    · decide
    · rw [List.mem_singleton.1 hs]
      decide
  obtain ⟨statement, comments, hparse, -, heval⟩ :=
    destructures_of_parse hnames (Nat.le_refl 2) parseExpression_swap "some.bcl"
  refine ⟨statement, comments, hparse, fun src hooks w => ?_⟩
  -- The value of the source and the state are all that counts, so the state gets a name.
  generalize hstart : (⟨.root [("a", .int 1), ("b", .int 2)], w⟩ : State) = start
  have hvalue : (Node.list [.ident "b", .ident "a"]).evalWith src hooks start =
      (.ok (.list [.int 2, .int 1]), start) := by
    rw [← hstart]
    rfl
  have houtcome := heval src hooks start (by
    rw [hvalue]
    rintro v t ⟨⟩ x hx ⟨result, error, rfl⟩
    simp [Value.elements] at hx)
  rw [hvalue] at houtcome
  generalize statement.evalWith src hooks start = result at houtcome
  cases houtcome with
  | bound =>
    rw [← hstart]
    rfl

/-! ## 5. One source in several targets -/

/-- The outcome of a source, with the source it comes from. `shared` is the source evaluated last
with its outcome; a source that is the same is not evaluated again. -/
def sharedOutcome (src : Source) (hooks : Hooks) (same : Node → Node → Bool)
    (shared : Option (Node × Except EvalError Value)) (source : Node) :
    Eval (Node × Except EvalError Value) := do
  match shared with
  | some (cached, outcome) =>
    if same cached source then return (cached, outcome)
    else return (source, ← Eval.attempt (source.evalWith src hooks))
  | none => return (source, ← Eval.attempt (source.evalWith src hooks))

/-- Assigns to targets one after another; several of them may take elements of one source. -/
def evalTargets (src : Source) (hooks : Hooks) (same : Node → Node → Bool) :
    Option (Node × Except EvalError Value) → List (Target × Node) → Eval (Table Value)
  | _, [] => return []
  | shared, (target, .extract source index) :: pairs => do
    let (cached, whole) ← sharedOutcome src hooks same shared source
    let vars ← Eval.bindElement target.name (.extract source index)
      (whole.bind (Value.element index))
    return Table.union vars (← evalTargets src hooks same (some (cached, whole)) pairs)
  | shared, (target, value) :: pairs => do
    let vars ← Eval.bind target.name value (← value.evalWith src hooks)
    return Table.union vars (← evalTargets src hooks same shared pairs)

variable {same : Node → Node → Bool} {source : Node}

theorem sharedOutcome_same (hsame : same source source = true) (whole : Except EvalError Value) :
    sharedOutcome src hooks same (some (source, whole)) source = pure (source, whole) := by
  rw [sharedOutcome]
  exact if_pos hsame

/-- Once the source has been evaluated, it is only taken apart. -/
theorem evalTargets_shared (hsame : same source source = true) (whole : Except EvalError Value)
    (targets : List Target) (index : Nat) :
    evalTargets src hooks same (some (source, whole))
        ((targets.zipIdx index).map fun (target, i) => (target, .extract source i)) =
      Eval.bindElements source whole index targets := by
  induction targets generalizing index with
  | nil => rfl
  | cons target targets ih =>
    rw [List.zipIdx_cons, List.map_cons, evalTargets, sharedOutcome_same hsame, pure_bind]
    dsimp only
    rw [ih, Eval.bindElements]

/-- **A source that every target has a copy of is evaluated once,** provided that a copy is
recognised as the same. -/
theorem evalTargets_elementsOf (hsame : same source source = true) {targets : List Target}
    (hsome : targets ≠ []) :
    (do return .map (← evalTargets src hooks same none (elementsOf targets source))) =
      (destructure targets source).evalWith src hooks := by
  obtain ⟨target, targets, rfl⟩ := List.exists_cons_of_ne_nil hsome
  have hfirst : evalTargets src hooks same none (elementsOf (target :: targets) source) =
      Eval.attempt (source.evalWith src hooks) >>= fun whole =>
        Eval.bindElements source whole 0 (target :: targets) := by
    rw [elementsOf, List.zipIdx_cons, List.map_cons, evalTargets, sharedOutcome, bind_assoc]
    refine congrArg _ (funext fun whole => ?_)
    rw [pure_bind]
    dsimp only
    rw [evalTargets_shared hsame, Eval.bindElements]
  rw [hfirst, evalWith, bind_assoc]

end Node

end BlockConfig
