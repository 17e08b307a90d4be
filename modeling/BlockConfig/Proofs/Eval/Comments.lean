import BlockConfig.Proofs.Eval.Positions
import BlockConfig.Proofs.Grammar.Blanked

/-!
Comments mean nothing to evaluation.

A comment that stands as a statement evaluates to nothing and changes nothing, whatever list of
statements it stands in: the body of a block or of a branch, the entries of a map, the steps of a
pipeline. So a tree evaluates like the tree without its comments, and documents that are the same
without their comments and positions have the same variables, or fail for one cause.

To the parser a comment is a statement, and it ends the statement in front of it. A text with a
blank character in place of a comment therefore means the same if no statement goes on behind the
comment and no heredoc begins in front of it (`Engine.evalDocument_blanked`). Neither can be left
out (`Engine.comments_matter`).
-/

set_option autoImplicit false

namespace BlockConfig

namespace Node

open Eval

/-! ## 1. What is read off a tree -/

/-- Which function is called, if one is, is seen from the node itself. This and the lemmas below collect
what evaluation asks of a node beyond its value, none of which is affected by comments. -/
theorem callName_uncommented (n : Node) : n.uncommented.callName = n.callName := by
  cases n <;> simp [uncommented, callName]

theorem isExtract_uncommented (n : Node) : n.uncommented.isExtract = n.isExtract := by
  cases n <;> simp [uncommented, isExtract]

theorem pos?_uncommented (n : Node) : n.uncommented.pos? = n.pos? := by
  cases n with
  | assignEach pairs => cases pairs <;> simp [uncommented, uncommentedPairs, pos?]
  | control branches =>
    rcases branches with _ | ⟨⟨_, _, _⟩, _⟩ <;> simp [uncommented, uncommentedBranches, pos?]
  | _ => simp [uncommented, pos?]

theorem unwrapCall_uncommented (v : Value) (n : Node) :
    v.unwrapCall n.uncommented = v.unwrapCall n := by
  unfold Value.unwrapCall
  rw [callName_uncommented]

theorem bind_uncommented (name : String) (n : Node) :
    Eval.bind name n.uncommented = Eval.bind name n := by
  funext v
  unfold Eval.bind
  rw [unwrapCall_uncommented]

theorem bindElement_uncommented (name : String) (n : Node) :
    bindElement name n.uncommented = bindElement name n := by
  funext r
  cases r with
  | ok v => exact congrFun (bind_uncommented name n) v
  | error => rfl

theorem bindOutcome_uncommented (name : String) (n : Node) :
    bindOutcome name n.uncommented = bindOutcome name n := by
  funext r
  unfold bindOutcome
  rw [isExtract_uncommented, bindElement_uncommented, bind_uncommented]

/-- Of the value that is taken apart only its elements are told apart. -/
theorem bindElements_congr (source source' : Node) (r : Except EvalError Value) (index : Nat)
    (targets : List Target) :
    bindElements source r index targets = bindElements source' r index targets := by
  induction targets generalizing index with
  | nil => rfl
  | cons target targets ih =>
    unfold bindElements
    rw [ih]
    cases r.bind (Value.element index) <;> rfl

mutual

/-- A comment has no text that is evaluated. -/
theorem longestText_uncommented : (n : Node) → n.uncommented.longestText = n.longestText
  | assign _ value _ => by simp only [uncommented, longestText, longestText_uncommented value]
  | assignEach pairs => by
    simp only [uncommented, longestText, longestTextPairs_uncommented pairs]
  | destructure _ source | extract source _ => by
    simp only [uncommented, longestText, longestText_uncommented source]
  | block _ _ body _ | container _ body _ | arrow _ _ _ body _ | pipeline body _ | map body
  | combinedMap body => by
    simp only [uncommented, longestText, longestTextAll_uncommented body]
  | list items | call _ items _ => by
    simp only [uncommented, longestText, longestTextEach_uncommented items]
  | literal _ | ident _ | envRef _ _ | comment _ => by rw [uncommented]
  | member left _ => by simp only [uncommented, longestText, longestText_uncommented left]
  | binary _ left right => by
    simp only [uncommented, longestText, longestText_uncommented left,
      longestText_uncommented right]
  | unary _ operand => by simp only [uncommented, longestText, longestText_uncommented operand]
  | ternary condition yes no => by
    simp only [uncommented, longestText, longestText_uncommented condition,
      longestText_uncommented yes, longestText_uncommented no]
  | group inner => by simp only [uncommented, longestText, longestText_uncommented inner]
  | inclusion target _ => by simp only [uncommented, longestText, longestText_uncommented target]
  | control branches => by
    simp only [uncommented, longestText, longestTextBranches_uncommented branches]
  | exec cmd args dir _ => by
    simp only [uncommented, longestText, longestText_uncommented cmd,
      longestTextOption_uncommented args, longestTextOption_uncommented dir]

/-- A comment holds no string, so the longest one stays, and with it the depth to which expressions in
strings are evaluated. This lemma and the next ones belong to one recursion over the tree. -/
theorem longestTextAll_uncommented : (ns : List Node) →
    longestTextAll (uncommentedAll ns) = longestTextAll ns
  | [] => by rw [uncommentedAll]
  | n :: ns => by
    have hns := longestTextAll_uncommented ns
    rw [uncommentedAll, longestTextAll]
    split
    next h =>
      cases n with
      | comment => rw [hns, longestText, Nat.zero_max]
      | _ => cases h
    next => rw [longestTextAll, longestText_uncommented n, hns]

theorem longestTextEach_uncommented : (ns : List Node) →
    longestTextAll (uncommentedEach ns) = longestTextAll ns
  | [] => by rw [uncommentedEach]
  | n :: ns => by
    rw [uncommentedEach, longestTextAll, longestTextAll, longestText_uncommented n,
      longestTextEach_uncommented ns]

theorem longestTextPairs_uncommented : (pairs : List (Target × Node)) →
    longestTextPairs (uncommentedPairs pairs) = longestTextPairs pairs
  | [] => by rw [uncommentedPairs]
  | (_, n) :: pairs => by
    rw [uncommentedPairs, longestTextPairs, longestTextPairs, longestText_uncommented n,
      longestTextPairs_uncommented pairs]

theorem longestTextOption_uncommented : (o : Option Node) →
    longestTextOption (uncommentedOption o) = longestTextOption o
  | none => by rw [uncommentedOption]
  | some n => by
    rw [uncommentedOption, longestTextOption, longestTextOption, longestText_uncommented n]

theorem longestTextBranches_uncommented : (bs : List (Branch Node)) →
    longestTextBranches (uncommentedBranches bs) = longestTextBranches bs
  | [] => by rw [uncommentedBranches]
  | ⟨condition, body, _⟩ :: bs => by
    rw [uncommentedBranches, longestTextBranches, longestTextBranches,
      longestTextOption_uncommented condition, longestTextAll_uncommented body,
      longestTextBranches_uncommented bs]

end

/-- No comment is an arrow between steps. -/
theorem arrowsOf_uncommentedAll (ns : List Node) :
    arrowsOf (uncommentedAll ns) = arrowsOf ns := by
  induction ns with
  | nil => rfl
  | cons n ns ih =>
    unfold arrowsOf at ih ⊢
    rw [uncommentedAll, List.filterMap_cons]
    split
    next h =>
      rw [ih]
      cases n with
      | comment => rfl
      | _ => cases h
    next =>
      rw [List.filterMap_cons, ih]
      cases n <;> simp [uncommented]

/-! ## 2. What is evaluated -/

section Evaluation

variable (src : Source) (hooks : Hooks)

/-- A comment runs without effect, -/
theorem evalStatements_comment (text : String) (ns : List Node) :
    evalStatements src hooks (comment text :: ns) = evalStatements src hooks ns := by
  rw [evalStatements, Node.evalWith]
  rfl

/-- also among the entries of a map. -/
theorem evalSelected_comment (selected : Node → Bool) (text : String) (ns : List Node) :
    evalSelected src hooks selected (comment text :: ns) =
      evalSelected src hooks selected ns := by
  rw [evalSelected, Node.evalWith]
  split <;> rfl

mutual

/-- **A tree is evaluated like itself without its comments.** A comment among statements does nothing when
its turn comes. The recursion is on the tree, with a lemma for each kind of list in it. -/
theorem evalWith_uncommented : (n : Node) →
    n.uncommented.evalWith src hooks = n.evalWith src hooks
  | assign target value style => by
    simp only [uncommented, Node.evalWith, evalWith_uncommented value, bindOutcome_uncommented]
  | assignEach pairs => by
    simp only [uncommented, Node.evalWith, evalPairs_uncommented pairs]
  | destructure targets source => by
    simp only [uncommented, Node.evalWith, evalWith_uncommented source,
      bindElements_congr source.uncommented source]
  | block _ _ body _ => by
    simp only [uncommented, Node.evalWith, evalStatements_uncommented body]
  | container _ body _ => by
    simp only [uncommented, Node.evalWith, evalStatements_uncommented body]
  | arrow _ _ _ body _ => by
    simp only [uncommented, Node.evalWith, evalStatements_uncommented body]
  | map entries => by
    simp only [uncommented, Node.evalWith, evalStatements_uncommented entries]
  | combinedMap items => by
    -- What is no block without comments is none with them, so the same entries run first.
    have hothers : ∀ m : Node, (!m.uncommented.isBlock) = !m.isBlock := fun m => by
      rw [isBlock_uncommented]
    simp only [uncommented, Node.evalWith,
      evalSelected_uncommented (fun n => !n.isBlock) hothers items,
      evalSelected_uncommented isBlock isBlock_uncommented items]
  | list items => by simp only [uncommented, Node.evalWith, evalValues_uncommented items]
  | literal _ | ident _ | envRef _ _ | comment _ => by rw [uncommented]
  | member left name => by
    simp only [uncommented, Node.evalWith, evalWith_uncommented left, unwrapCall_uncommented]
  | binary op left right => by
    simp only [uncommented, Node.evalWith, evalWith_uncommented left,
      evalWith_uncommented right, unwrapCall_uncommented]
  | unary op operand => by
    simp only [uncommented, Node.evalWith, evalWith_uncommented operand, unwrapCall_uncommented]
  | ternary condition yes no => by
    simp only [uncommented, Node.evalWith, evalWith_uncommented condition,
      evalWith_uncommented yes, evalWith_uncommented no, unwrapCall_uncommented]
  | group inner => by simp only [uncommented, Node.evalWith, evalWith_uncommented inner]
  | call name args _ => by simp only [uncommented, Node.evalWith, evalValues_uncommented args]
  | inclusion target _ => by
    simp only [uncommented, Node.evalWith, evalWith_uncommented target, unwrapCall_uncommented]
  | control branches => by
    simp only [uncommented, Node.evalWith, evalBranches_uncommented branches]
  | pipeline body _ => by
    simp only [uncommented, Node.evalWith, stepsOf_uncommented body, arrowsOf_uncommentedAll]
  | exec cmd args dir _ => by
    simp only [uncommented, Node.evalWith, evalWith_uncommented cmd, unwrapCall_uncommented,
      evalOption_uncommented args, evalOption_uncommented dir]
  | extract source index => by
    simp only [uncommented, Node.evalWith, evalWith_uncommented source]

/-- A comment among statements is evaluated to nothing and binds nothing, so the others can be run without
it. The lemmas below are the cases of one recursion. -/
theorem evalStatements_uncommented : (ns : List Node) →
    evalStatements src hooks (uncommentedAll ns) = evalStatements src hooks ns
  | [] => by rw [uncommentedAll]
  | n :: ns => by
    have hns := evalStatements_uncommented ns
    rw [uncommentedAll]
    split
    next h =>
      cases n with
      | comment => rw [evalStatements_comment, hns]
      | _ => cases h
    next =>
      rw [evalStatements, evalStatements, evalWith_uncommented n, pos?_uncommented, hns]

/-- Among selected statements a comment may be passed over in either of the two rounds; in both it does
nothing. -/
theorem evalSelected_uncommented (selected : Node → Bool)
    (hs : ∀ m : Node, selected m.uncommented = selected m) : (ns : List Node) →
    evalSelected src hooks selected (uncommentedAll ns) = evalSelected src hooks selected ns
  | [] => by rw [uncommentedAll]
  | n :: ns => by
    have hns := evalSelected_uncommented selected hs ns
    rw [uncommentedAll]
    split
    next h =>
      cases n with
      | comment => rw [evalSelected_comment, hns]
      | _ => cases h
    next => rw [evalSelected, evalSelected, evalWith_uncommented n, hs, hns]

/-- Values have no comments among them but may have some within. -/
theorem evalValues_uncommented : (ns : List Node) →
    evalValues src hooks (uncommentedEach ns) = evalValues src hooks ns
  | [] => by rw [uncommentedEach]
  | n :: ns => by
    simp only [uncommentedEach, evalValues, evalWith_uncommented n, unwrapCall_uncommented,
      evalValues_uncommented ns]

theorem evalOption_uncommented : (o : Option Node) →
    evalOption src hooks (uncommentedOption o) = evalOption src hooks o
  | none => by rw [uncommentedOption]
  | some n => by
    simp only [uncommentedOption, evalOption, evalWith_uncommented n, unwrapCall_uncommented]

theorem evalPairs_uncommented : (pairs : List (Target × Node)) →
    evalPairs src hooks (uncommentedPairs pairs) = evalPairs src hooks pairs
  | [] => by rw [uncommentedPairs]
  | (_, n) :: pairs => by
    simp only [uncommentedPairs, evalPairs, evalWith_uncommented n, bindOutcome_uncommented,
      evalPairs_uncommented pairs]

theorem evalBranches_uncommented : (bs : List (Branch Node)) →
    evalBranches src hooks (uncommentedBranches bs) = evalBranches src hooks bs
  | [] => by rw [uncommentedBranches]
  | ⟨none, body, _⟩ :: bs => by
    simp only [uncommentedBranches, uncommentedOption, evalBranches,
      evalStatements_uncommented body, evalBranches_uncommented bs]
  | ⟨some n, body, _⟩ :: bs => by
    simp only [uncommentedBranches, uncommentedOption, evalBranches, evalWith_uncommented n,
      unwrapCall_uncommented, evalStatements_uncommented body, evalBranches_uncommented bs]

/-- A comment in a pipeline is no step. -/
theorem stepsOf_uncommented : (ns : List Node) →
    stepsOf src hooks (uncommentedAll ns) = stepsOf src hooks ns
  | [] => by rw [uncommentedAll]
  | n :: ns => by
    have hns := stepsOf_uncommented ns
    rw [uncommentedAll]
    cases n with
    | assign target value style =>
      simp only [isComment, Bool.false_eq_true, if_false, uncommented, stepsOf,
        evalWith_uncommented value, hns]
    | comment => simp only [isComment, if_true, stepsOf, hns]
    | _ => simp only [isComment, Bool.false_eq_true, if_false, uncommented, stepsOf, hns]

end

end Evaluation

/-! ## 3. Documents -/

/-- A document runs like itself without its comments. -/
theorem run_uncommentedAll (src : Source) (ns : List Node) :
    src.run (uncommentedAll ns) = src.run ns := by
  unfold Source.run
  rw [longestTextAll_uncommented]
  simp only [evalStatements_uncommented]

end Node

/-- **Documents that are the same without their comments and positions have the same variables,**
or fail for one cause. -/
theorem Engine.evalDocument_agree_of_uncommented {ns ns' : List Node}
    (h : Node.unplacedAll (Node.uncommentedAll ns) = Node.unplacedAll (Node.uncommentedAll ns'))
    (src : Source) : Run.Agree (evalDocument src ns) (evalDocument src ns') := by
  have bare : ∀ ms, evalDocument src (Node.uncommentedAll ms) = evalDocument src ms := by
    intro ms
    unfold evalDocument
    rw [Node.run_uncommentedAll]
  rw [← bare ns, ← bare ns']
  exact evalDocument_agree h src

/-! ## 4. Blank characters in place of comments -/

namespace Engine

/-- **A document means the same with a blank character in place of a comment** behind which no
statement goes on and in front of which no heredoc begins: it is accepted, and it has the same
variables or fails for one cause. -/
theorem evalDocument_blanked {source file : String} {ns : List Node} {o : Commented} {s : Span}
    (h : Node.parse source file = .ok ns) (ho : o.StandsIn source s)
    (hopen : ¬s.OpensHeredoc source.toList) (quiet : o.Quiet) :
    ∃ ns', Node.parse (String.ofList (s.blanked source.toList)) file = .ok ns' ∧
      ∀ src, Run.Agree (evalDocument src ns) (evalDocument src ns') := by
  obtain ⟨ns', h', hsame⟩ := Node.parse_blanked h ho hopen quiet
  exact ⟨ns', h', evalDocument_agree_of_uncommented hsame⟩

/-- A token on the first line without marks of its own. -/
def tokenAt (column : Nat) (kind : Kind) (literal : String) : Token :=
  ⟨kind, literal, ⟨1, column⟩, none, none⟩

/-- The tokens of a list with a comment in it. -/
def commentInList : Commented where
  front := [tokenAt 1 .ident "x", tokenAt 3 .assign "=", tokenAt 5 .lbracket "[",
    tokenAt 6 .number "1"]
  comment := tokenAt 8 .comment "/* c */"
  left := [tokenAt 15 .rbracket "]", .endOfInput ⟨1, 16⟩]
  isComment := rfl

/-- A comment in a list: without it the document is read as the same assignment. -/
theorem evalDocument_blanked_commentInList :
    (Node.parse "x = [1 /* c */]" "d" =
          .ok [.assign ⟨"x", ⟨1, 1⟩⟩ (.list [.literal (.int 1)]) .equals] ∧
        commentInList.StandsIn "x = [1 /* c */]" ⟨7, 14⟩ ∧
        ¬Span.OpensHeredoc ⟨7, 14⟩ "x = [1 /* c */]".toList ∧ commentInList.Quiet) ∧
      ∃ ns', Node.parse (String.ofList (Span.blanked ⟨7, 14⟩ "x = [1 /* c */]".toList)) "d" =
          .ok ns' ∧
        ∀ src,
          Run.Agree (evalDocument src [.assign ⟨"x", ⟨1, 1⟩⟩ (.list [.literal (.int 1)]) .equals])
            (evalDocument src ns') := by
  have ho : commentInList.StandsIn "x = [1 /* c */]" ⟨7, 14⟩ := by
    refine ⟨?_, ?_, fun _ => by decide⟩
    · repeat refine Token.listFrom_step rfl rfl rfl ?_
      exact Token.listFrom_nil _
    · exact @Token.readFrom_of_scan "x = [1 ".toList "/* c */".toList '/' "* c */]".toList _ rfl rfl
  have h : Node.parse "x = [1 /* c */]" "d" =
      .ok [.assign ⟨"x", ⟨1, 1⟩⟩ (.list [.literal (.int 1)]) .equals] :=
    Rule.readText_ok_iff.2 ⟨_, ⟨1, [.endOfInput ⟨1, 16⟩]⟩, ho.tokens, rfl⟩
  have hopen : ¬Span.OpensHeredoc ⟨7, 14⟩ "x = [1 /* c */]".toList := by
    rintro ⟨a, u, hfront, -⟩
    have hmem : '<' ∈ "x = [1 ".toList := by
      have hfront : "x = [1 ".toList = a ++ '<' :: '<' :: u := hfront
      rw [hfront]
      simp
    exact absurd hmem (by decide)
  have quiet : commentInList.Quiet := by
    refine Commented.quiet_of_head ?_
    rintro t ⟨⟩
    decide
  exact ⟨⟨h, ho, hopen, quiet⟩, evalDocument_blanked h ho hopen quiet⟩

/-! ## 5. Comments that matter -/

/-- With a blank character in place of the comment in a span a document is rejected or has other
variables. -/
def Matters (source : String) (s : Span) : Prop :=
  ∃ o ns, Commented.StandsIn o source s ∧ Node.parse source "d" = .ok ns ∧
    ∀ ns', Node.parse (String.ofList (s.blanked source.toList)) "d" = .ok ns' →
      ∃ src, ¬(evalDocument src ns).Equivalent (evalDocument src ns')

/-- A comment matters if the text without it is read to a document that some engine evaluates otherwise. It
is enough to give its tokens, since both readings are determined by them. -/
theorem matters_of_tokens {source : String} {o : Commented} {s : Span} {ns : List Node} {d : Cursor}
    (us : List Token) (ho : o.StandsIn source s)
    (h : (Rule.document (Rule.budget o.tokens)).Gives (.ofTokens o.tokens) ns d)
    (hus : Token.list (s.blanked source.toList) = .ok us)
    (hne : ∀ ns' d', (Rule.document (Rule.budget us)).Gives (.ofTokens us) ns' d' →
      ∃ src, ¬(evalDocument src ns).Equivalent (evalDocument src ns')) : Matters source s := by
  refine ⟨o, ns, ho, Rule.readText_ok_iff.2 ⟨_, _, ho.tokens, h⟩, fun ns' h' => ?_⟩
  obtain ⟨ts, d', hts, h'⟩ := Rule.readText_ok_iff.1 h'
  rw [String.toList_ofList] at hts
  obtain rfl := Except.ok.inj (hus.symm.trans hts)
  exact hne ns' d' h'

/-- Documents of which one gives a variable a value that the other does not give it are not
equivalent. -/
theorem not_equivalent_of_find? {src : Source} {ns ns' : List Node} {w : World} {name : String}
    {v : Value} (h : (evalDocument src ns w).1.toOption.bind (Table.find? · name) = some v)
    (h' : (evalDocument src ns' w).1.toOption.bind (Table.find? · name) ≠ some v) :
    ¬(evalDocument src ns).Equivalent (evalDocument src ns') := by
  intro he
  rcases (he w).2 with ⟨t, h1, h2⟩ | ⟨stop, stop', h1, h2⟩
  · rw [h1] at h
    rw [h2] at h'
    exact h' h
  · rw [h1] at h
    cases h

/-- A source without functions and commands. -/
def plainSource : Source :=
  ⟨⟨.default, [], fun _ _ => .error "no commands"⟩, "d", "/", []⟩

/-- A world without files. -/
def plainWorld : World :=
  ⟨⟨⟨[], []⟩, "/", [], []⟩, .fresh, [], []⟩

/-- A value takes in a word operator. -/
theorem matters_operator : Matters "a = 1 /**/ add = 2" ⟨6, 10⟩ := by
  refine @matters_of_tokens _ ⟨[tokenAt 1 .ident "a", tokenAt 3 .assign "=",
      tokenAt 5 .number "1"],
      tokenAt 7 .comment "/**/",
      [tokenAt 12 .ident "add", tokenAt 16 .assign "=", tokenAt 18 .number "2",
      .endOfInput ⟨1, 19⟩], rfl⟩
    _ _ _ [tokenAt 1 .ident "a", tokenAt 3 .assign "=", tokenAt 5 .number "1",
    tokenAt 9 .ident "add", tokenAt 13 .assign "=", tokenAt 15 .number "2", .endOfInput ⟨1, 16⟩]
    ⟨?_, ?_, fun _ => by decide⟩ rfl ?_ ?_
  · repeat refine Token.listFrom_step rfl rfl rfl ?_
    exact Token.listFrom_nil _
  · exact @Token.readFrom_of_scan "a = 1 ".toList "/**/".toList '/' "**/ add = 2".toList _ rfl rfl
  · repeat refine Token.listFrom_step rfl rfl rfl ?_
    exact Token.listFrom_nil _
  · nofun

/-- The value for several targets gets a second one beside it. -/
theorem matters_value : Matters "a, b = 1 /**/, c = 2" ⟨9, 13⟩ := by
  refine @matters_of_tokens _ ⟨[tokenAt 1 .ident "a", tokenAt 2 .comma ",", tokenAt 4 .ident "b",
      tokenAt 6 .assign "=", tokenAt 8 .number "1"],
      tokenAt 10 .comment "/**/",
      [tokenAt 14 .comma ",", tokenAt 16 .ident "c", tokenAt 18 .assign "=",
      tokenAt 20 .number "2", .endOfInput ⟨1, 21⟩], rfl⟩
    _ _ _ [tokenAt 1 .ident "a", tokenAt 2 .comma ",", tokenAt 4 .ident "b",
    tokenAt 6 .assign "=", tokenAt 8 .number "1", tokenAt 11 .comma ",", tokenAt 13 .ident "c",
    tokenAt 15 .assign "=", tokenAt 17 .number "2", .endOfInput ⟨1, 18⟩]
    ⟨?_, ?_, fun _ => by decide⟩ rfl ?_ ?_
  · repeat refine Token.listFrom_step rfl rfl rfl ?_
    exact Token.listFrom_nil _
  · exact @Token.readFrom_of_scan "a, b = 1 ".toList "/**/".toList '/' "**/, c = 2".toList _ rfl rfl
  · repeat refine Token.listFrom_step rfl rfl rfl ?_
    exact Token.listFrom_nil _
  · nofun

/-- A flag becomes the first of several targets. -/
theorem matters_targets : Matters "a /**/, b, c = 1, 2" ⟨2, 6⟩ := by
  refine @matters_of_tokens _ ⟨[tokenAt 1 .ident "a"],
      tokenAt 3 .comment "/**/",
      [tokenAt 7 .comma ",", tokenAt 9 .ident "b", tokenAt 10 .comma ",", tokenAt 12 .ident "c",
      tokenAt 14 .assign "=", tokenAt 16 .number "1", tokenAt 17 .comma ",",
      tokenAt 19 .number "2", .endOfInput ⟨1, 20⟩], rfl⟩
    _ _ _ [tokenAt 1 .ident "a", tokenAt 4 .comma ",", tokenAt 6 .ident "b", tokenAt 7 .comma ",",
    tokenAt 9 .ident "c", tokenAt 11 .assign "=", tokenAt 13 .number "1", tokenAt 14 .comma ",",
    tokenAt 16 .number "2", .endOfInput ⟨1, 17⟩]
    ⟨?_, ?_, fun _ => by decide⟩ rfl ?_ ?_
  · repeat refine Token.listFrom_step rfl rfl rfl ?_
    exact Token.listFrom_nil _
  · exact @Token.readFrom_of_scan "a ".toList "/**/".toList '/' "**/, b, c = 1, 2".toList _ rfl rfl
  · repeat refine Token.listFrom_step rfl rfl rfl ?_
    exact Token.listFrom_nil _
  · nofun

/-- A flag becomes the kind of a block. -/
theorem matters_label : Matters "k /**/ l \x7b\x7d" ⟨2, 6⟩ := by
  refine @matters_of_tokens _ ⟨[tokenAt 1 .ident "k"],
      tokenAt 3 .comment "/**/",
      [tokenAt 8 .ident "l", tokenAt 10 .lbrace "\x7b", tokenAt 11 .rbrace "\x7d",
      .endOfInput ⟨1, 12⟩], rfl⟩
    _ _ _ [tokenAt 1 .ident "k", tokenAt 5 .ident "l", tokenAt 7 .lbrace "\x7b",
    tokenAt 8 .rbrace "\x7d", .endOfInput ⟨1, 9⟩]
    ⟨?_, ?_, fun _ => by decide⟩ rfl ?_ ?_
  · repeat refine Token.listFrom_step rfl rfl rfl ?_
    exact Token.listFrom_nil _
  · exact @Token.readFrom_of_scan "k ".toList "/**/".toList '/' "**/ l \x7b\x7d".toList _ rfl rfl
  · repeat refine Token.listFrom_step rfl rfl rfl ?_
    exact Token.listFrom_nil _
  · rintro _ _ ⟨⟩
    exact ⟨plainSource, @not_equivalent_of_find? _ _ _ plainWorld "k" (.bool true) rfl nofun⟩

/-- A flag becomes the relation of an arrow. -/
theorem matters_relation : Matters "Flow /**/ a -> b" ⟨5, 9⟩ := by
  refine @matters_of_tokens _ ⟨[tokenAt 1 .ident "Flow"],
      tokenAt 6 .comment "/**/",
      [tokenAt 11 .ident "a", tokenAt 13 .arrow "->", tokenAt 16 .ident "b",
      .endOfInput ⟨1, 17⟩], rfl⟩
    _ _ _ [tokenAt 1 .ident "Flow", tokenAt 8 .ident "a", tokenAt 10 .arrow "->",
    tokenAt 13 .ident "b", .endOfInput ⟨1, 14⟩]
    ⟨?_, ?_, fun _ => by decide⟩ rfl ?_ ?_
  · repeat refine Token.listFrom_step rfl rfl rfl ?_
    exact Token.listFrom_nil _
  · exact @Token.readFrom_of_scan "Flow ".toList "/**/".toList '/' "**/ a -> b".toList _ rfl rfl
  · repeat refine Token.listFrom_step rfl rfl rfl ?_
    exact Token.listFrom_nil _
  · rintro _ _ ⟨⟩
    exact ⟨plainSource, @not_equivalent_of_find? _ _ _ plainWorld "Flow" (.bool true) rfl nofun⟩

/-- A shift becomes a heredoc. -/
theorem matters_heredoc : Matters "a = 1 <<B #\nB" ⟨10, 11⟩ := by
  refine @matters_of_tokens _ ⟨[tokenAt 1 .ident "a", tokenAt 3 .assign "=",
      tokenAt 5 .number "1", tokenAt 7 .shl "<<", tokenAt 9 .ident "B"],
      tokenAt 11 .comment "#",
      [⟨.ident, "B", ⟨2, 1⟩, none, none⟩, .endOfInput ⟨2, 2⟩], rfl⟩
    _ _ _ [tokenAt 1 .ident "a", tokenAt 3 .assign "=", tokenAt 5 .number "1",
    ⟨.heredoc, "", ⟨1, 7⟩, some "B", none⟩, .endOfInput ⟨3, 2⟩]
    ⟨?_, ?_, fun _ => by decide⟩ rfl ?_ ?_
  · repeat refine Token.listFrom_step rfl rfl rfl ?_
    exact Token.listFrom_nil _
  · exact @Token.readFrom_of_scan "a = 1 <<B ".toList "#".toList '#' "\nB".toList _ rfl rfl
  · repeat refine Token.listFrom_step rfl rfl rfl ?_
    exact Token.listFrom_nil _
  · nofun

/-- **Comments matter** in each of the ways in which a statement can go on behind them, and where
they keep a heredoc from beginning. -/
theorem comments_matter :
    Matters "a = 1 /**/ add = 2" ⟨6, 10⟩ ∧ Matters "a, b = 1 /**/, c = 2" ⟨9, 13⟩ ∧
      Matters "k /**/ l \x7b\x7d" ⟨2, 6⟩ ∧ Matters "Flow /**/ a -> b" ⟨5, 9⟩ ∧
      Matters "a /**/, b, c = 1, 2" ⟨2, 6⟩ ∧ Matters "a = 1 <<B #\nB" ⟨10, 11⟩ :=
  ⟨matters_operator, matters_value, matters_label, matters_relation, matters_targets,
    matters_heredoc⟩

end Engine

end BlockConfig
