import BlockConfig.Eval.Calls
import BlockConfig.Proofs.Grammar.Parsed

/-!
Documents are well-formed trees.

The evaluator and the renderer rely on what the grammar says about trees, and neither looks again:
they number the targets of an assignment, leave the last branch of a chain unguarded and print a
container without asking what is in it. `Node.WellFormed` collects what they rely on, for one node
and what stands directly below it, and every node of a document that was read has it
(`wellFormed_of_parse`).

The induction through the grammar is in `Rule.sound`, and carries `FitsHere`. What is to be said here
is what `FitsHere` means where it quotes the decisions of the grammar: `ofBlock` and `ofEntries`
decide by what is in a body what it is the body of (`ofBlock_eq_container_iff`,
`ofEntries_eq_map_iff`), and `Links` goes from link to link (`isSome_of_links`).
-/

set_option autoImplicit false

namespace BlockConfig

namespace Node

/-! ## 1. What stands below a node -/

/-- The nodes directly below a node that stand for values. -/
def operands : Node → List Node
  | assign _ value _ => [value]
  | assignEach pairs => pairs.map Prod.snd
  | destructure _ source | extract source _ => [source]
  | list items | call _ items _ => items
  | member left _ => [left]
  | binary _ left right => [left, right]
  | unary _ operand => [operand]
  | ternary condition yes no => [condition, yes, no]
  | group inner => [inner]
  | inclusion target _ => [target]
  | control branches => branches.flatMap fun b => b.condition.toList
  | exec cmd args dir _ => cmd :: (args.toList ++ dir.toList)
  | block .. | container .. | arrow .. | pipeline .. | map _ | combinedMap _ | literal _ | ident _
  | envRef .. | comment _ => []

/-- The nodes directly below a node that stand as statements. -/
def statements : Node → List Node
  | block _ _ body _ | container _ body _ | arrow _ _ _ body _ | pipeline body _ | map body
  | combinedMap body => body
  | control branches => branches.flatMap Branch.body
  | _ => []

/-- An assignment to several targets as one assignment after the other. Where the targets share a
source, each gets its element of it. -/
def pairs? : Node → Option (List (Target × Node))
  | assignEach pairs => some pairs
  | destructure targets source => some (elementsOf targets source)
  | _ => none

theorem isExtract_of_isValue {n : Node} (h : n.isValue = true) : n.isExtract = false := by
  cases n <;> simp_all [isValue, isExtract]

theorem length_elementsOf (targets : List Target) (source : Node) :
    (elementsOf targets source).length = targets.length := by
  simp [elementsOf]

theorem getElem?_elementsOf {targets : List Target} {source : Node} {i : Nat} {p : Target × Node}
    (h : (elementsOf targets source)[i]? = some p) : p.2 = extract source i := by
  simp only [elementsOf, List.getElem?_map, List.getElem?_zipIdx, Option.map_map,
    Option.map_eq_some_iff, Function.comp_apply, Nat.zero_add] at h
  obtain ⟨t, -, rfl⟩ := h
  rfl

/-! ## 2. Well-formed nodes -/

/-- Nothing but blocks, containers and comments, and not only comments. -/
def Blocks (body : List Node) : Prop :=
  (∀ m ∈ body, m.isBlock = true ∨ m.isComment = true) ∧ ∃ m ∈ body, m.isBlock = true

/-- Each pair gives its own value, or they give the elements of one source in turn. -/
def Paired (pairs : List (Target × Node)) : Prop :=
  (∀ p ∈ pairs, p.2.isExtract = false) ∨
    ∃ source : Node, source.isValue = true ∧
      ∀ (i : Nat) (p : Target × Node), pairs[i]? = some p → p.2 = extract source i

/-- A node as the evaluator and the renderer expect it, with what stands directly below it. -/
structure WellFormed (n : Node) : Prop where
  /-- Where a value is expected stands an expression or a directive. -/
  operands : ∀ m ∈ n.operands, m.isValue = true
  /-- Where a statement is expected stands one. -/
  statements : ∀ m ∈ n.statements, m.isStatement = true
  /-- Several targets are at least two, and all take their own values or all share one. -/
  pairs : ∀ ps ∈ n.pairs?, 2 ≤ ps.length ∧ Paired ps
  /-- Elements of a shared source stand nowhere else. -/
  extract : n.isExtract = false
  /-- A chain begins with a condition, and only its last link may lack one. -/
  control : ∀ branches, n = .control branches →
    (∃ b ∈ branches.head?, b.condition.isSome = true) ∧
      ∀ b ∈ branches.dropLast, b.condition.isSome = true
  /-- A container holds blocks. -/
  container : ∀ kind body pos, n = .container kind body pos → Blocks body
  /-- A block without a label does not hold what makes a container. -/
  block : ∀ kind body pos, n = .block kind none body pos → ¬ Blocks body
  /-- A map holds no block. -/
  map : ∀ entries, n = .map entries → ∀ m ∈ entries, m.isBlock = false
  /-- A map with blocks holds one. -/
  combinedMap : ∀ items, n = .combinedMap items → ∃ m ∈ items, m.isBlock = true
  /-- A pipeline holds written-out assignments, arrows and comments. -/
  pipeline : ∀ body pos, n = .pipeline body pos → ∀ m ∈ body,
    (∃ target value style, m = .assign target value style ∧ style ≠ .flag) ∨
      (∃ r source target inner p, m = .arrow r source target inner p) ∨
        m.isComment = true
  /-- A bare name is set to true. A style is one of three, so it has no colon. -/
  flag : ∀ target value, n = .assign target value .flag → value = .literal (.bool true)
  /-- An arrow names one of the relations. -/
  arrow : ∀ r source target body pos, n = .arrow (some r) source target body pos →
    r.name ∈ Relation.all.map Relation.name

/-! ## 3. What the decisions of the grammar mean -/

/-- A body is that of a container if and only if there is no label and it holds blocks. -/
theorem ofBlock_eq_container_iff {kind : String} {label : Option String} {body : List Node}
    {pos : Position} :
    ofBlock kind label body pos = .container kind body pos ↔ label = none ∧ Blocks body := by
  unfold ofBlock Blocks
  simp only [Bool.and_eq_true, Option.isNone_iff_eq_none, List.all_eq_true, List.any_eq_true,
    Bool.or_eq_true]
  split
  next h => exact ⟨fun _ => ⟨h.1.1, h.1.2, h.2⟩, fun _ => rfl⟩
  next h => exact ⟨fun no => Node.noConfusion no, fun hl => absurd ⟨⟨hl.1, hl.2.1⟩, hl.2.2⟩ h⟩

theorem ofEntries_eq_map_iff {entries : List Node} :
    ofEntries entries = .map entries ↔ ∀ m ∈ entries, m.isBlock = false := by
  unfold ofEntries
  split
  next h =>
    obtain ⟨m, hm, hb⟩ := List.any_eq_true.1 h
    exact ⟨fun no => Node.noConfusion no, fun none => by simp [none m hm] at hb⟩
  next h => simpa using h

/-- A link in front of another one has a condition. -/
theorem isSome_of_links {branches : List (Branch Node)} (h : Links branches) :
    ∀ b ∈ branches.dropLast, b.condition.isSome = true := by
  induction branches with
  | nil => simp
  | cons first others ih =>
    cases others with
    | nil => simp
    | cons second others =>
      intro b hb
      rcases List.mem_cons.1 hb with rfl | hb
      · rw [Option.isSome_iff_ne_none]
        exact fun no => List.cons_ne_nil _ _ (h.1 no)
      · exact ih h.2.2.2 b hb

/-! ## 4. Documents are well-formed -/

/-- What stands where a value is used is one. -/
theorem isValue_of_fitsHere {n : Node} (h : n.FitsHere) : ∀ m ∈ n.operands, m.isValue = true := by
  cases n with
  | assign | member | unary => simpa [operands] using h.1
  | assignEach pairs =>
    intro m hm
    obtain ⟨p, hp, rfl⟩ := List.mem_map.1 hm
    exact h.2 p hp
  | destructure => simpa [operands] using h.2
  | list | call => exact h
  | binary => simpa [operands] using And.intro h.1 h.2.1
  | ternary => simpa [operands] using And.intro h.1 (And.intro h.2.1 h.2.2.1)
  | group | inclusion => exact List.forall_mem_singleton.2 h
  | control branches =>
    intro m hm
    obtain ⟨b, hb, hm⟩ := List.mem_flatMap.1 hm
    exact (h.2.of_mem hb).1 m (Option.mem_toList.1 hm)
  | exec cmd args dir =>
    intro m hm
    simp only [operands, List.mem_cons, List.mem_append, Option.mem_toList] at hm
    rcases hm with rfl | hm | hm
    · exact h.1
    · exact h.2.1 m hm
    · exact h.2.2 m hm
  | extract => exact h.elim
  | block | container | arrow | pipeline | map | combinedMap | literal | ident | envRef | comment =>
    simp [operands]

/-- What stands where a statement is used is one. -/
theorem isStatement_of_fitsHere {n : Node} (h : n.FitsHere) :
    ∀ m ∈ n.statements, m.isStatement = true := by
  cases n with
  | block | container | map | combinedMap => exact h.1
  | arrow => exact h
  | pipeline => exact fun m hm => isStatement_of_isStep (h m hm)
  | control branches =>
    intro m hm
    obtain ⟨b, hb, hm⟩ := List.mem_flatMap.1 hm
    exact (h.2.of_mem hb).2 m hm
  | _ => simp [statements]

/-- Several targets have a value each, and there are at least two of them. -/
theorem paired_of_fitsHere {n : Node} (h : n.FitsHere) :
    ∀ ps ∈ n.pairs?, 2 ≤ ps.length ∧ Paired ps := by
  cases n with
  | assignEach pairs =>
    rintro ps ⟨⟩
    exact ⟨h.1, .inl fun p hp => isExtract_of_isValue (h.2 p hp)⟩
  | destructure targets source =>
    rintro ps ⟨⟩
    refine ⟨?_, .inr ⟨source, h.2, fun i p hp => getElem?_elementsOf hp⟩⟩
    rw [length_elementsOf]
    exact h.1
  | _ => simp [pairs?]

/-- What stands in a pipeline. -/
theorem step_cases {m : Node} (h : m.isStep = true) :
    (∃ target value style, m = .assign target value style ∧ style ≠ .flag) ∨
      (∃ r source target inner p, m = .arrow r source target inner p) ∨
        m.isComment = true := by
  cases m with
  | assign target value style => exact .inl ⟨target, value, style, rfl, by simpa [isStep] using h⟩
  | arrow => exact .inr (.inl ⟨_, _, _, _, _, rfl⟩)
  | comment text => exact .inr (.inr rfl)
  | _ => simp [isStep] at h

/-- A tree as the grammar gives it is well formed at each node. The clauses are taken one by one from what a
node must be to fit where it stands. -/
theorem wellFormed_of_fitsHere {n : Node} (h : n.FitsHere) : n.WellFormed where
  operands := isValue_of_fitsHere h
  statements := isStatement_of_fitsHere h
  pairs := paired_of_fitsHere h
  extract := by
    cases n with
    | extract => exact h.elim
    | _ => rfl
  control := by
    rintro branches rfl
    exact ⟨h.1, isSome_of_links h.2⟩
  container := by
    rintro kind body pos rfl
    exact (ofBlock_eq_container_iff.1 h.2).2
  block := by
    rintro kind body pos rfl blocks
    have own : ofBlock kind none body pos = .block kind none body pos := h.2
    rw [ofBlock_eq_container_iff.2 ⟨rfl, blocks⟩] at own
    exact Node.noConfusion own
  map := by
    rintro entries rfl
    exact ofEntries_eq_map_iff.1 h.2
  combinedMap := by
    rintro items rfl
    by_contra no
    have own : ofEntries items = .combinedMap items := h.2
    rw [ofEntries_eq_map_iff.2 (by simpa using no)] at own
    exact Node.noConfusion own
  pipeline := by
    rintro body pos rfl m hm
    exact step_cases (h m hm)
  flag := by
    rintro target value rfl
    exact h.2 rfl
  arrow := by
    rintro r source target body pos rfl
    cases r <;> decide

/-- **Documents are well-formed.** What a text is read as consists of statements, and at every depth
each of its nodes is well-formed. -/
theorem wellFormed_of_parse {source file : String} {ns : List Node}
    (h : parse source file = .ok ns) :
    ∀ n ∈ ns, n.isStatement = true ∧ n.Everywhere WellFormed := by
  obtain ⟨shaped, statement⟩ := shaped_of_parse h
  exact fun n hn => ⟨statement n hn, (shaped n hn).mono fun _ fits => wellFormed_of_fitsHere fits.1⟩

/-- A destructured call in the body of a container's block. -/
theorem wellFormed_of_parse_destructure :
    let n : Node := .container "s" [.block "b" none
      [.destructure [⟨"x", ⟨1, 7⟩⟩, ⟨"y", ⟨1, 9⟩⟩] (.call "f" [] ⟨1, 11⟩)] ⟨1, 4⟩] ⟨1, 1⟩
    parse "s \x7bb \x7bx,y=f()\x7d\x7d" "d" = .ok [n] ∧
      n.isStatement = true ∧ n.Everywhere WellFormed := by
  intro n
  have tokens : Token.list "s \x7bb \x7bx,y=f()\x7d\x7d".toList =
      .ok [⟨.ident, "s", ⟨1, 1⟩, none, none⟩, ⟨.lbrace, "\x7b", ⟨1, 3⟩, none, none⟩,
        ⟨.ident, "b", ⟨1, 4⟩, none, none⟩, ⟨.lbrace, "\x7b", ⟨1, 6⟩, none, none⟩,
        ⟨.ident, "x", ⟨1, 7⟩, none, none⟩, ⟨.comma, ",", ⟨1, 8⟩, none, none⟩,
        ⟨.ident, "y", ⟨1, 9⟩, none, none⟩, ⟨.assign, "=", ⟨1, 10⟩, none, none⟩,
        ⟨.ident, "f", ⟨1, 11⟩, none, none⟩, ⟨.lparen, "(", ⟨1, 12⟩, none, none⟩,
        ⟨.rparen, ")", ⟨1, 13⟩, none, none⟩, ⟨.rbrace, "\x7d", ⟨1, 14⟩, none, none⟩,
        ⟨.rbrace, "\x7d", ⟨1, 15⟩, none, none⟩, .endOfInput ⟨1, 16⟩] := by
    -- One step for each token.
    refine Token.listFrom_step rfl rfl rfl ?_
    refine Token.listFrom_step rfl rfl rfl ?_
    refine Token.listFrom_step rfl rfl rfl ?_
    refine Token.listFrom_step rfl rfl rfl ?_
    refine Token.listFrom_step rfl rfl rfl ?_
    refine Token.listFrom_step rfl rfl rfl ?_
    refine Token.listFrom_step rfl rfl rfl ?_
    refine Token.listFrom_step rfl rfl rfl ?_
    refine Token.listFrom_step rfl rfl rfl ?_
    refine Token.listFrom_step rfl rfl rfl ?_
    refine Token.listFrom_step rfl rfl rfl ?_
    refine Token.listFrom_step rfl rfl rfl ?_
    refine Token.listFrom_step rfl rfl rfl ?_
    exact Token.listFrom_nil _
  have read : parse "s \x7bb \x7bx,y=f()\x7d\x7d" "d" = .ok [n] :=
    Rule.readText_ok_iff.2 ⟨_, ⟨1, [.endOfInput ⟨1, 16⟩]⟩, tokens, rfl⟩
  exact ⟨read, wellFormed_of_parse read n (List.mem_singleton.2 rfl)⟩

end Node

end BlockConfig
