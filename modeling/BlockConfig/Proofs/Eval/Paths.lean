import BlockConfig.Engine
import BlockConfig.Proofs.Eval.Blocks
import BlockConfig.Proofs.Eval.Splicing
import BlockConfig.Proofs.Lexing.Lawful
import BlockConfig.Proofs.Value.Documents
import BlockConfig.Proofs.Value.Untupled

/-!
Paths.

A path is its segments with dots between them (`segments_intercalate`). Its segments can be followed in
three ways, and what is shown here is that these agree.

- In a value: a block is entered through the table of its properties.
- In the plain view of the value: the properties stand in place of the block. If all blocks are whole, the
  view of what the path leads to is what it leads to in the view (`getPath?_toDocument`). A segment must
  not be one of the names that blocks use for themselves, which the view does not have; and tuples are
  left out, because the view has their first element in their place, and a path could enter that.
- In an expression that asks for one member after another: it has the value that the path leads to, if
  none of the members is a name of the scope's own table, which would come first (`eval_dotted`).

Each is an induction on the segments with one lemma for a single step (`segment?_toDocument`,
`tableMember_of_segment?`).
-/

set_option autoImplicit false

namespace BlockConfig

namespace Value

/-! ## 1. Segments -/

/-- The segments of a dotted path. -/
def segments (path : String) : List String :=
  (Text.splitOnChar '.' path.toList).map String.ofList

theorem getPath?_eq (v : Value) (path : String) : v.getPath? path = v.getSegments? (segments path) :=
  rfl

/-- A separator between neighbours, in the words of the library. -/
theorem intercalate_eq_joinWith (sep : List Char) (pieces : List (List Char)) :
    sep.intercalate pieces = Text.joinWith sep pieces := by
  induction pieces with
  | nil => rfl
  | cons p ps ih =>
    cases ps with
    | nil => exact List.intercalate_singleton
    | cons q qs => rw [List.intercalate_cons_cons, ih, Text.joinWith.eq_3 sep p (q :: qs) (by simp)]

/-- **Names without dots are the segments of the path that they make.** Splitting at the dots undoes joining
with dots, as no name has one. -/
theorem segments_intercalate {names : List String} (nonempty : names ≠ [])
    (undotted : ∀ name ∈ names, '.' ∉ name.toList) : segments (".".intercalate names) = names := by
  have pieces : ∀ piece ∈ names.map String.toList, '.' ∉ piece := by
    simpa only [List.forall_mem_map] using undotted
  have dot : ".".toList = ['.'] := rfl
  rw [segments, String.toList_intercalate, dot, intercalate_eq_joinWith,
    Lexeme.splitOnChar_joinWith (by simpa using nonempty) pieces, List.map_map]
  exact (List.map_congr_left fun name _ => String.ofList_toList).trans (List.map_id _)

/-! ## 2. Whole blocks -/

/-- A table has the entries of a block and no others, and its properties are a table. -/
structure WholeBlock (t : Table Value) : Prop where
  keys (key : String) :
    Table.contains t key = true ↔ key = typeKey ∨ key = labelKey ∨ key = propsKey
  props : ∃ props, Table.find? t propsKey = some (map props)

/-- Every block in a value is whole. -/
def BlocksWhole (v : Value) : Prop :=
  ∀ t, Occurs (map t) v → isBlockTable t = true → WholeBlock t

section

variable {u v w : Value} {t : Table Value} {name : String} {names : List String}

theorem Occurs.trans (h : Occurs u v) (h' : Occurs v w) : Occurs u w := by
  induction h' with
  | here => exact h
  | part mem _ ih => exact .part mem ih

theorem BlocksWhole.of_occurs (h : v.BlocksWhole) (hu : Occurs u v) : u.BlocksWhole :=
  fun t ht => h t (ht.trans hu)

theorem BlocksWhole.of_parts (here : ∀ t, v = map t → isBlockTable t = true → WholeBlock t)
    (below : ∀ u ∈ v.parts, u.BlocksWhole) : v.BlocksWhole := by
  intro t ht
  cases ht with
  | here => exact here t rfl
  | part mem ht => exact below _ mem t ht

/-- What is found in a table stands in it. -/
theorem occurs_of_find? (h : Table.find? t name = some v) : Occurs v (map t) :=
  .part (List.mem_map_of_mem (Table.mem_of_find? h)) .here

/-- What a segment leads to stands in the table. -/
theorem occurs_of_segment? (h : segment? t name = some v) : Occurs v (map t) := by
  unfold segment? at h
  split at h
  case h_1 found =>
    cases h
    exact occurs_of_find? found
  case h_2 =>
    split at h
    · split at h
      case h_1 found => exact (occurs_of_find? h).trans (occurs_of_find? found)
      case h_2 => cases h
    · cases h

/-- What occurs in a value without tuples has none. -/
theorem Occurs.untupled (h : Occurs u v) (hv : v.Untupled) : u.Untupled := by
  induction h with
  | here => exact hv
  | @part v w mem h ih =>
    refine ih ?_
    cases v with
    | list items => exact untupled_list.1 hv w mem
    | map entries =>
      obtain ⟨e, he, rfl⟩ := List.mem_map.1 mem
      exact untupled_map.1 hv e he
    | tuple items => exact absurd hv (not_untupled_tuple items)
    | _ => cases mem

/-! ## 3. One step -/

/-- The view of a table has the views of its values. -/
theorem find?_entriesDocument (unreserved : isReservedKey name = false) (t : Table Value) :
    Table.find? (entriesDocument t) name = (Table.find? t name).map toDocument := by
  induction t with
  | nil => rfl
  | cons e t ih =>
    obtain ⟨key, v⟩ := e
    rw [entriesDocument_cons, Table.find?]
    by_cases same : name = key
    · subst same
      simp [unreserved, Table.find?]
    · rw [if_neg same]
      split
      · exact ih
      · rw [Table.find?, if_neg same, ih]

/-- The view of a whole block has the views of the block's properties. -/
theorem find?_propsDocument (unreserved : isReservedKey name = false) {props : Table Value}
    (h : Table.find? t propsKey = some (map props)) :
    Table.find? (propsDocument t) name = (Table.find? props name).map toDocument := by
  rw [propsDocument_eq, h]
  exact find?_entriesDocument unreserved props

/-- In a table that is no block a segment names an entry. -/
theorem segment?_of_no_block (h : isBlockTable t = false) (name : String) :
    segment? t name = Table.find? t name := by
  rw [segment?, h]
  cases Table.find? t name <;> rfl

/-- In a whole block it names a property. -/
theorem segment?_of_whole (whole : WholeBlock t) {props : Table Value}
    (h : Table.find? t propsKey = some (map props)) (unreserved : isReservedKey name = false)
    (other : name ≠ propsKey) : segment? t name = Table.find? props name := by
  have absent : Table.find? t name = none := by
    rw [← Option.not_isSome_iff_eq_none]
    intro found
    rcases (whole.keys name).1 found with rfl | rfl | rfl
    · exact absurd unreserved (by decide)
    · exact absurd unreserved (by decide)
    · exact other rfl
  have block : isBlockTable t = true := (whole.keys typeKey).2 (.inl rfl)
  rw [segment?, absent]
  simp only [block, if_true, h]

/-- The view of a table is a table, which is no block, and a segment leads to the view of what it leads to
in the table itself. -/
theorem segment?_toDocument (whole : isBlockTable t = true → WholeBlock t)
    (unreserved : isReservedKey name = false) (other : name ≠ propsKey) :
    ∃ u, (map t).toDocument = map u ∧ segment? u name = (segment? t name).map toDocument := by
  rw [toDocument]
  split
  · rename_i block
    obtain ⟨props, h⟩ := (whole block).props
    have open_keys := fun e he => (documents_propsDocument t e he).1
    refine ⟨_, rfl, ?_⟩
    rw [segment?_of_no_block (isBlockTable_of_keys_open open_keys),
      segment?_of_whole (whole block) h unreserved other, find?_propsDocument unreserved h]
  · rename_i no_block
    have open_keys := fun e he => (documents_entriesDocument t e he).1
    refine ⟨_, rfl, ?_⟩
    rw [segment?_of_no_block (isBlockTable_of_keys_open open_keys),
      segment?_of_no_block (by simpa using no_block), find?_entriesDocument unreserved]

/-! ## 4. The whole path -/

/-- The two ways go in step, segment by segment. -/
theorem getSegments?_toDocument (untupled : v.Untupled) (whole : v.BlocksWhole)
    (unreserved : ∀ name ∈ names, isReservedKey name = false ∧ name ≠ propsKey) :
    v.toDocument.getSegments? names = (v.getSegments? names).map toDocument := by
  induction names generalizing v with
  | nil => simp only [getSegments?, Option.map_some]
  | cons name names ih =>
    obtain ⟨⟨here, other⟩, unreserved⟩ := List.forall_mem_cons.1 unreserved
    cases v with
    | map t =>
      obtain ⟨u, view, step⟩ := segment?_toDocument (whole t .here) here other
      simp only [view, getSegments?, step, Option.map_bind, Option.bind_map]
      cases found : segment? t name with
      | none => rfl
      | some w =>
        have below := occurs_of_segment? found
        exact ih (below.untupled untupled) (whole.of_occurs below) unreserved
    | tuple items => exact absurd untupled (not_untupled_tuple items)
    | _ => simp only [toDocument, getSegments?, Option.map_none]

/-- **A path leads to the same place in a value and in its view.** In a value without tuples all whose
blocks are whole, a path whose segments are neither reserved nor `props` leads somewhere exactly if it
does in the plain view, and the view of what it leads to is what it leads to there. -/
theorem getPath?_toDocument (untupled : v.Untupled) (whole : v.BlocksWhole) {path : String}
    (unreserved : ∀ name ∈ segments path, isReservedKey name = false ∧ name ≠ propsKey) :
    v.toDocument.getPath? path = (v.getPath? path).map toDocument := by
  rw [getPath?_eq, getPath?_eq]
  exact getSegments?_toDocument untupled whole unreserved

end

/-! ## 5. Whole blocks that are made -/

/-- The entries of a block are whole. -/
theorem wholeBlock_blockEntries (kind label : String) (props : Table Value) :
    WholeBlock (Eval.blockEntries kind label props) := by
  refine ⟨fun key => ?_, props, by rw [Eval.find?_blockEntries, if_pos rfl]⟩
  rw [Table.contains, Eval.find?_blockEntries]
  split_ifs <;> simp_all

/-- A block whose properties hold whole blocks only is such a value. -/
theorem blocksWhole_block (kind label : String) {props : Table Value}
    (h : (map props).BlocksWhole) : (block kind label props).BlocksWhole := by
  refine .of_parts ?_ fun u hu => ?_
  · rintro _ ⟨⟩ -
    exact wholeBlock_blockEntries kind label props
  · have plain (s : String) : (str s).BlocksWhole := .of_parts nofun nofun
    obtain ⟨e, he, rfl⟩ := List.mem_map.1 hu
    rcases Table.mem_union he with he | he
    · cases he
    · simp only [List.mem_cons, List.not_mem_nil, or_false] at he
      rcases he with rfl | rfl | rfl
      exacts [plain kind, plain label, h]

/-- The servers of a document with one block in it, `server "main" { port = 8080 }`. -/
def sampleBucket : Value :=
  map [("main", block "server" "main" [("name", str "main"), ("port", int 8080)])]

/-- The variables of the document that are of interest. -/
def sampleServers : Value :=
  map [("server", sampleBucket)]

/-- A path through the bucket of a kind to a property of a block, in the value and in its document. -/
theorem getPath?_toDocument_sampleServers :
    sampleServers.Untupled ∧ sampleServers.BlocksWhole ∧
      (∀ name ∈ segments "server.main.port", isReservedKey name = false ∧ name ≠ propsKey) ∧
      sampleServers.toDocument.getPath? "server.main.port" =
        (sampleServers.getPath? "server.main.port").map toDocument := by
  have scalars : Table.Untupled [("name", str "main"), ("port", int 8080)] :=
    .cons (untupled_of_isScalar rfl) (.cons (untupled_of_isScalar rfl) .nil)
  have untupled : sampleServers.Untupled := by
    refine untupled_map.2 (.cons (untupled_map.2 (.cons ?_ .nil)) .nil)
    exact untupled_block "server" "main" scalars
  have whole : sampleServers.BlocksWhole := by
    have props : (map [("name", str "main"), ("port", int 8080)]).BlocksWhole := by
      refine .of_parts ?_ (List.forall_mem_cons.2 ⟨.of_parts nofun nofun, ?_⟩)
      · rintro _ ⟨⟩ ⟨⟩
      · exact List.forall_mem_singleton.2 (.of_parts nofun nofun)
    refine .of_parts ?_ (List.forall_mem_singleton.2 (.of_parts ?_ (List.forall_mem_singleton.2 ?_)))
    · rintro _ ⟨⟩ ⟨⟩
    · rintro _ ⟨⟩ ⟨⟩
    · exact blocksWhole_block "server" "main" props
  have unreserved : ∀ name ∈ segments "server.main.port", isReservedKey name = false ∧ name ≠ propsKey := by
    decide
  exact ⟨untupled, whole, unreserved, getPath?_toDocument untupled whole unreserved⟩

/-! ## 6. One member -/

/-- What a segment leads to in a table is the table's member, if the scope's own table has no variable of
that name. -/
theorem tableMember_of_segment? {t : Table Value} {name : String} {w : Value} {scope : Scope}
    (free : scope.findOwn? name = none) (h : segment? t name = some w) :
    tableMember t name scope = w := by
  unfold segment? at h
  unfold tableMember
  cases found : Table.find? t name with
  | some direct =>
    rw [found] at h
    rw [free]
    exact Option.some.inj h
  | none =>
    rw [found] at h
    dsimp only at h ⊢
    split at h
    · rename_i block
      rw [if_pos block, property]
      cases props : Table.find? t propsKey with
      | none =>
        rw [props] at h
        cases h
      | some value =>
        rw [props] at h
        cases value with
        | map props => exact congrArg (·.getD undefined) h
        | _ => cases h
    · cases h

/-- What is no tuple of two is no result of a call, and nothing is taken apart. -/
theorem unwrapCall_of_no_pair {w : Value} (h : ∀ v e, w ≠ tuple [v, e]) (n : Node) :
    w.unwrapCall n = .ok w := by
  unfold unwrapCall
  split
  · exact absurd rfl (h _ _)
  · rfl

end Value

namespace Node

open Eval

/-- The expression that asks a variable for a member, what it gives for another, and so on:
`x.m₁.….mₖ`. -/
def dotted (x : String) (members : List String) : Node :=
  members.foldl member (ident x)

section

variable {src : Source} {hooks : Hooks} {s : State} {x : String} {n : Node} {v w : Value}
  {members : List String}

/-! ## 7. Dotted expressions in writing -/

theorem writable_of_isPlainName (h : Text.isPlainName x.toList = true) : Writable x := by
  have names := ((isPlainName_iff x).1 h).1.names
  have no_hole : '$' ∉ x.toList := fun hm => absurd (names '$' hm) (by decide)
  rw [Writable, ← List.append_nil x.toList, Lexeme.closesHoles_append no_hole]
  rfl

/-- Asking a canonical operand for members leaves it canonical. -/
theorem canonical_members (hn : n.Canonical) (operand : n.isMember = true ∨ n.isPrimary = true)
    (hw : Everywhere WritableHere n) (names : ∀ m ∈ members, Writable m) :
    (members.foldl member n).Canonical ∧ Everywhere WritableHere (members.foldl member n) := by
  induction members generalizing n with
  | nil => exact ⟨hn, hw⟩
  | cons m ms ih =>
    obtain ⟨here, names⟩ := List.forall_mem_cons.1 names
    refine ih (.intro operand ?_) (.inl rfl) (.intro here ?_) names
    · exact List.forall_mem_singleton.2 hn
    · exact List.forall_mem_singleton.2 hw

/-- Members have no positions, so a tree that differs from them in positions at most is the same. -/
theorem members_of_unplaced_eq (hn : ∀ n', n'.unplaced = n.unplaced → n' = n) {n' : Node}
    (h : n'.unplaced = (members.foldl member n).unplaced) : n' = members.foldl member n := by
  induction members generalizing n with
  | nil => exact hn n' h
  | cons m ms ih =>
    refine ih (fun k hk => ?_) h
    cases k <;> simp only [unplaced, reduceCtorEq] at hk
    case member left name =>
      obtain ⟨hleft, rfl⟩ := member.inj hk
      rw [hn left hleft]

/-- Members with plain names are written with dots between them. -/
theorem render_members (names : ∀ m ∈ members, Text.isPlainName m.toList = true) (level : Nat) :
    (members.foldl member n).render level = ".".intercalate (n.render level :: members) := by
  induction members generalizing n with
  | nil => exact String.intercalate_singleton.symm
  | cons m ms ih =>
    obtain ⟨here, names⟩ := List.forall_mem_cons.1 names
    have step : (member n m).render level = n.render level ++ "." ++ m := by
      rw [render, Text.nameText, if_pos here]
    rw [List.foldl_cons, ih names, step, String.intercalate_cons_append,
      String.intercalate_cons_cons]

/-- **Plain names with dots between them are read as a dotted expression.** The text is that of the tree as
it is written, and the tree is canonical, so it is read back; it has no positions that could differ. -/
theorem parseExpression_dotted (named : Text.isPlainName x.toList = true)
    (names : ∀ m ∈ members, Text.isPlainName m.toList = true) (file : String) :
    parseExpression (".".intercalate (x :: members)) file = .ok (dotted x members) := by
  have text : (dotted x members).render 0 = ".".intercalate (x :: members) := render_members names 0
  obtain ⟨canonical, writable⟩ := canonical_members (n := ident x) (.intro trivial (by simp [children]))
    (.inr rfl) (.intro named (by simp [children])) fun m hm => writable_of_isPlainName (names m hm)
  obtain ⟨ts, spells, cut⟩ :=
    ((canonical.printable writable).writes.1 canonical.isValue).writes 0 .start
  obtain ⟨last, tokens⟩ := cut.list loose_nil
  have budget : 10 * ts.length + 9 ≤ Rule.budget (ts ++ [Token.endOfInput last]) := by
    rw [Rule.budget, List.length_append, List.length_singleton]
    omega
  obtain ⟨n', same, gives⟩ := reads_loneExpression canonical.isValue canonical.readable 0
    (.endOfInput last) spells rfl budget
  obtain rfl : n' = dotted x members := by
    refine members_of_unplaced_eq (fun k hk => ?_) same
    cases k <;> simp_all [unplaced]
  rw [← text]
  exact Rule.readText_eq tokens gives file

/-! ## 8. Dotted expressions and paths -/

theorem evalWith_ident_of_find? (named : x ≠ "env") (value : s.scope.find? x = some v) :
    (ident x).evalWith src hooks s = (.ok v, s) := by
  have found : s.scope.lookup x = v := by rw [Scope.lookup, value, Option.getD_some]
  rw [evalWith, if_neg named, bind_apply, scope_apply]
  exact Prod.ext (congrArg Except.ok found) rfl

/-- Members are what the segments lead to. -/
theorem evalWith_members (left : n.evalWith src hooks s = (.ok v, s))
    (free : ∀ m ∈ members, s.scope.findOwn? m = none) (found : v.getSegments? members = some w) :
    (members.foldl member n).evalWith src hooks s = (.ok w, s) := by
  induction members generalizing n v with
  | nil =>
    rw [Value.getSegments?] at found
    cases found
    exact left
  | cons m ms ih =>
    obtain ⟨here, free⟩ := List.forall_mem_cons.1 free
    -- A segment leads somewhere only from a table.
    cases v with
    | map t =>
      obtain ⟨u, step, found⟩ := Option.bind_eq_some_iff.1 found
      refine ih (evalWith_member (.map t) left rfl fun envValue? => ?_) free found
      exact congrArg Except.ok (Value.tableMember_of_segment? here step)
    | _ => cases found

/-- What a node is evaluated to whatever its strings lead to is its value. -/
theorem eval_of_evalWith (h : ∀ hooks, n.evalWith src hooks s = (.ok v, s)) :
    n.eval src s = (.ok v, s) := by
  rw [Node.eval, bind_apply, world_apply]
  exact h _

/-- A text that is read as a node has the node's value, unless this is to be taken apart. -/
theorem evalExpression_of_eval {e : Engine} {text : String}
    (read : parseExpression text "<expr>" = .ok n)
    (h : n.eval (e.inline s.world.host) s = (.ok v, s)) (whole : v.unwrapCall n = .ok v) :
    e.evalExpression text s = (.ok v, s) := by
  have value : n.evalValue (e.inline s.world.host) s = (.ok v, s) := by
    rw [evalValue, bind_apply, h]
    dsimp only
    rw [whole]
    rfl
  unfold Engine.evalExpression
  rw [read]
  dsimp only
  rw [value]

/-- **Dotted expressions agree with paths.** In every scope, if a path leads from the value of a variable to
a value, then asking the variable for the segments of the path, one after another, gives that value and
changes nothing, provided that the scope's own table has no variable named like a segment. So does, in
every engine, a text that is read as this expression, unless the value is a tuple of two, which is the
result of a call and is taken apart. -/
theorem eval_dotted (named : x ≠ "env") (value : s.scope.find? x = some v) (nonempty : members ≠ [])
    (undotted : ∀ m ∈ members, '.' ∉ m.toList) (free : ∀ m ∈ members, s.scope.findOwn? m = none)
    (found : v.getPath? (".".intercalate members) = some w) :
    (∀ src, (dotted x members).eval src s = (.ok w, s)) ∧
      ((∀ a b, w ≠ .tuple [a, b]) → ∀ (e : Engine) (text : String),
        parseExpression text "<expr>" = .ok (dotted x members) →
        e.evalExpression text s = (.ok w, s)) := by
  rw [Value.getPath?_eq, Value.segments_intercalate nonempty undotted] at found
  have evaluated (src : Source) : (dotted x members).eval src s = (.ok w, s) :=
    eval_of_evalWith fun _ => evalWith_members (evalWith_ident_of_find? named value) free found
  refine ⟨evaluated, fun single e text read => ?_⟩
  exact evalExpression_of_eval read (evaluated _) (Value.unwrapCall_of_no_pair single _)

end

/-- A scope inside that of the document. -/
def sampleState : State :=
  ⟨(Scope.root [("server", Value.sampleBucket)]).child, ⟨⟨⟨[], []⟩, "/", [], []⟩, .fresh, [], []⟩⟩

/-- The port of the block, by path and by expression. -/
theorem eval_dotted_sampleState :
    sampleState.scope.find? "server" = some Value.sampleBucket ∧
      (∀ m ∈ ["main", "port"], '.' ∉ m.toList ∧ sampleState.scope.findOwn? m = none) ∧
      Value.sampleBucket.getPath? (".".intercalate ["main", "port"]) = some (.int 8080) ∧
      (Engine.new .default fun _ _ => .error "no commands").evalExpression "server.main.port"
        sampleState = (.ok (.int 8080), sampleState) := by
  have undotted : ∀ m ∈ ["main", "port"], '.' ∉ m.toList := by decide
  have free : ∀ m ∈ ["main", "port"], sampleState.scope.findOwn? m = none := fun _ _ => rfl
  have found : Value.sampleBucket.getPath? (".".intercalate ["main", "port"]) = some (.int 8080) := by
    rw [Value.getPath?_eq, Value.segments_intercalate (List.cons_ne_nil _ _) undotted]
    rfl
  have plain : ∀ m ∈ ["main", "port"], Text.isPlainName m.toList = true := by decide
  have text : ".".intercalate ["server", "main", "port"] = "server.main.port" := by decide
  have read : parseExpression "server.main.port" "<expr>" = .ok (dotted "server" ["main", "port"]) := by
    rw [← text]
    exact parseExpression_dotted (by decide) plain "<expr>"
  refine ⟨rfl, fun m hm => ⟨undotted m hm, free m hm⟩, found, ?_⟩
  exact (eval_dotted (by decide) rfl (List.cons_ne_nil _ _) undotted free found).2 nofun _ _ read

end Node

end BlockConfig
