import BlockConfig.Proofs.Inclusion.Atomic
import BlockConfig.Proofs.Lexing.Cutting

/-!
What blocks and arrows have registered, and what inclusions leave of it.

Within a scope, registrations add up. A block goes into the bucket of its kind, beside the blocks that
are there (`registerBlock_apply`), and an arrow to the end of the list of its relation
(`registerArrow_apply`). Both look at the scope's own table and at no other, so a document that is
included gathers buckets and lists of its own, also where it sees the names of its caller.

An inclusion does not add up. It copies the variables of the document one by one, and a bucket is one
variable, as is the list of a relation: what the document leaves under a name takes the place of what
the caller had gathered there, and where it leaves nothing, the caller's registrations are untouched
(`registered_of_inclusion`). So an included document with a block of the same kind, or an arrow of the
same relation, makes the caller's go away (`inclusion_replaces_registered`).
-/

set_option autoImplicit false

namespace BlockConfig

/-! ## 1. Buckets and lists -/

namespace Value

/-- The blocks of a kind by their labels, if a value is a bucket. A block is not one. -/
def bucket : Value → Table Value
  | map entries => if isBlockTable entries then [] else entries
  | _ => []

/-- The records of a relation, if a value is a list. -/
def records : Value → List Value
  | list items => items
  | _ => []

end Value

namespace Scope

/-- The blocks that are registered under a kind in a scope, by their labels. -/
def bucket (s : Scope) (kind : String) : Table Value :=
  ((s.findOwn? kind).map Value.bucket).getD []

/-- The arrows that are registered under a relation in a scope, the latest last. -/
def records (s : Scope) (relation : String) : List Value :=
  ((s.findOwn? relation).map Value.records).getD []

end Scope

namespace Eval

/-- The value of a block, which has at least a name. -/
def blockValue (kind label : String) (props : Table Value) : Value :=
  .block kind label
    (if Table.contains props "name" then props else Table.insert props "name" (.str label))

/-- The record of an arrow. -/
def arrowRecord (relation source target : String) (props : Table Value) : Value :=
  .map [("props", .map (Table.insert (Table.insert props "source" (.str source)) "target"
    (.str target))), ("type", .str relation)]

/-- A block is put into the bucket of its kind and set under its label. -/
theorem registerBlock_apply (kind label : String) (props : Table Value) (s : State) :
    registerBlock kind label props s =
      (.ok (blockValue kind label props),
        { s with scope := (s.scope.set kind (.map (Table.insert (s.scope.bucket kind) label
          (blockValue kind label props)))).set label (blockValue kind label props) }) := by
  unfold registerBlock Scope.bucket
  rw [bind_apply]
  dsimp only [scope_apply]
  rcases s.scope.findOwn? kind with _ | v
  · rfl
  · cases v <;> rfl

/-- An arrow is put at the end of the list of its relation. -/
theorem registerArrow_apply (relation source target : String) (props : Table Value) (s : State) :
    registerArrow relation source target props s =
      (.ok (arrowRecord relation source target props),
        { s with scope := s.scope.set relation (.list (s.scope.records relation ++
          [arrowRecord relation source target props])) }) := by
  unfold registerArrow Scope.records
  rw [bind_apply]
  dsimp only [scope_apply]
  rcases s.scope.findOwn? relation with _ | v
  · rfl
  · cases v <;> rfl

end Eval

/-! ## 2. What an inclusion leaves -/

namespace Scope

variable {s t : Scope} {vars : Table Value} {name : String}

/-- A scope has taken over variables: each has the value that it has among them, and all other names
have the values that they had. -/
def TakenOver (s : Scope) (vars : Table Value) (t : Scope) : Prop :=
  ∀ name, t.findOwn? name = (Table.find? vars name).or (s.findOwn? name)

theorem TakenOver.bucket_eq (h : s.TakenOver vars t) (absent : Table.find? vars name = none) :
    t.bucket name = s.bucket name := by
  rw [bucket, bucket, h, absent, Option.none_or]

theorem TakenOver.bucket_of_find? (h : s.TakenOver vars t) {v : Value}
    (found : Table.find? vars name = some v) : t.bucket name = v.bucket := by
  rw [bucket, h, found]
  rfl

theorem TakenOver.records_eq (h : s.TakenOver vars t) (absent : Table.find? vars name = none) :
    t.records name = s.records name := by
  rw [records, records, h, absent, Option.none_or]

theorem TakenOver.records_of_find? (h : s.TakenOver vars t) {v : Value}
    (found : Table.find? vars name = some v) : t.records name = v.records := by
  rw [records, h, found]
  rfl

/-- A label stays in its bucket unless there is another bucket instead, without it. -/
theorem TakenOver.label_iff (h : s.TakenOver vars t) {label : String}
    (registered : label ∈ Table.keys (s.bucket name)) :
    label ∈ Table.keys (t.bucket name) ↔
      ∀ v, Table.find? vars name = some v → label ∈ Table.keys v.bucket := by
  rcases found : Table.find? vars name with _ | v
  · rw [h.bucket_eq found]
    exact ⟨fun _ => nofun, fun _ => registered⟩
  · rw [h.bucket_of_find? found]
    exact ⟨fun kept => by rintro _ ⟨⟩; exact kept, fun kept => kept v rfl⟩

/-- The records of a relation stay, in their order, unless there is another list instead. -/
theorem TakenOver.records_iff (h : s.TakenOver vars t) :
    (s.records name).Sublist (t.records name) ↔
      ∀ v, Table.find? vars name = some v → (s.records name).Sublist v.records := by
  rcases found : Table.find? vars name with _ | v
  · rw [h.records_eq found]
    exact ⟨fun _ => nofun, fun _ => List.Sublist.refl _⟩
  · rw [h.records_of_find? found]
    exact ⟨fun kept => by rintro _ ⟨⟩; exact kept, fun kept => kept v rfl⟩

end Scope

namespace Eval

variable {src : Source} {n depth : Nat} {target : Node} {s s' t : State} {v given : Value}
  {text : String}

/-- **What an inclusion leaves of the caller's registrations.** Where the document leaves no variable
under a kind or a relation, the bucket and the list are what they were. Where it leaves one, a label
stays if and only if the document's own bucket has it, and the records stay if and only if the
document's own list has them, in their order. -/
theorem registered_of_inclusion
    (evaluated : target.evalWith src (Hooks.atDepth (src.includeWithin n) src depth) s = (.ok v, s'))
    (isText : v.unwrapCall target = .ok (.str text)) {pos : Position}
    (included : (Node.inclusion target pos).evalWith src
      (Hooks.atDepth (src.includeWithin n) src depth) s = (.ok given, t)) :
    ∃ vars : Table Value, given = .map vars ∧
      (∀ kind, Table.find? vars kind = none → t.scope.bucket kind = s'.scope.bucket kind) ∧
      (∀ kind label, label ∈ Table.keys (s'.scope.bucket kind) →
        (label ∈ Table.keys (t.scope.bucket kind) ↔
          ∀ w, Table.find? vars kind = some w → label ∈ Table.keys w.bucket)) ∧
      (∀ relation, Table.find? vars relation = none →
        t.scope.records relation = s'.scope.records relation) ∧
      ∀ relation, (s'.scope.records relation).Sublist (t.scope.records relation) ↔
        ∀ w, Table.find? vars relation = some w → (s'.scope.records relation).Sublist w.records := by
  have ending : src.includeWithin n text s' = (.ok given, t) :=
    (evalWith_inclusion evaluated isText pos).symm.trans included
  have outcome := allOrNothing_includeWithin n src text s'
  rw [ending] at outcome
  obtain ⟨vars, same, -, -, taken⟩ := outcome.succeeded given rfl
  have taken : s'.scope.TakenOver vars t.scope := taken
  exact ⟨vars, same, fun kind => taken.bucket_eq, fun kind label => taken.label_iff,
    fun relation => taken.records_eq, fun relation => taken.records_iff⟩

/-! ## 3. An inclusion that replaces registrations -/

/-- A text without holes has itself for its value. -/
theorem evalWith_plainText {src : Source} {hooks : Hooks} {text : String} {q : Char}
    (plain : Piece.beforeHole text.toList = (text.toList, none)) (s : State) :
    (Node.literal (.str text q none)).evalWith src hooks s = (.ok (.str text), s) := by
  have split : Piece.split text.toList = [.text text.toList] := by
    rw [Piece.split]
    split
    next front h =>
      rw [plain] at h
      rw [(Prod.mk.inj h).1]
    next front rest h =>
      rw [plain] at h
      exact absurd (Prod.mk.inj h).2 (by simp)
  rw [Node.evalWith, literalValue, interpolate, split]
  simp [joinPieces]
  rfl

/-- A block and an arrow. -/
def registrations (label source target : String) : List Node :=
  [.block "k" (some label) [] ⟨1, 1⟩, .arrow none source target [] ⟨2, 1⟩]

/-- The record of an arrow without properties. -/
def plainRecord (source target : String) : Value :=
  .map [("props", .map [("source", .str source), ("target", .str target)]), ("type", .str "Edge")]

/-- The variables that a block and an arrow leave. -/
def registeredVars (label source target : String) : Table Value :=
  [("Edge", .list [plainRecord source target]),
    ("k", .map [(label, blockValue "k" label [])]), (label, blockValue "k" label [])]

/-- A document that can be had by an address. -/
def registeringText : String :=
  "k y \x7b\x7d\np -> q\n"

/-- The document of the example, as it is read. -/
theorem parse_registeringText :
    Node.parse registeringText "http://h/d" = .ok (registrations "y" "p" "q") := by
  have tokens : Token.list registeringText.toList =
      .ok [⟨.ident, "k", ⟨1, 1⟩, none, none⟩, ⟨.ident, "y", ⟨1, 3⟩, none, none⟩,
        ⟨.lbrace, "\x7b", ⟨1, 5⟩, none, none⟩, ⟨.rbrace, "\x7d", ⟨1, 6⟩, none, none⟩,
        ⟨.ident, "p", ⟨2, 1⟩, none, none⟩, ⟨.arrow, "->", ⟨2, 3⟩, none, none⟩,
        ⟨.ident, "q", ⟨2, 6⟩, none, none⟩, .endOfInput ⟨3, 1⟩] := by
    refine Token.listFrom_step rfl rfl rfl ?_
    refine Token.listFrom_step rfl rfl rfl ?_
    refine Token.listFrom_step rfl rfl rfl ?_
    refine Token.listFrom_step rfl rfl rfl ?_
    refine Token.listFrom_step rfl rfl rfl ?_
    refine Token.listFrom_step rfl rfl rfl ?_
    refine Token.listFrom_step rfl rfl rfl ?_
    exact (Token.listFrom_gap rfl _ _).trans (Token.listFrom_nil _)
  exact Rule.readText_ok_iff.2 ⟨_, ⟨2, [.endOfInput ⟨3, 1⟩]⟩, tokens, rfl⟩

/-- The document that includes it. -/
def registeringSource : Source :=
  ⟨⟨.default, [], fun _ _ => .error "no commands"⟩, "<input>", "/", []⟩

/-- A scope in a world in which the document can be had. -/
def registeringState (vars : Table Value) : State :=
  ⟨.root vars, ⟨⟨⟨[], []⟩, "/", [("http://h/d", registeringText)], []⟩, .fresh, [], []⟩⟩

/-- The inclusion of the document. -/
def registeringInclusion : Node :=
  .inclusion (.literal (.str "http://h/d" '"' none)) ⟨3, 1⟩

/-- The inclusion leaves the variables of the document on top, whatever is there. -/
theorem includeWithin_registering (vars : Table Value) :
    ∃ t, registeringSource.includeWithin 2 "http://h/d" (registeringState vars) =
        (.ok (.map (registeredVars "y" "p" "q")), t) ∧
      t.scope = (Scope.root vars).extend (registeredVars "y" "p" "q") := by
  have found : registeringSource.find (registeringState vars).world.host "http://h/d" =
      .ok (.remote "http://h/d") := rfl
  exact ⟨_, includeWith_eq (.anew found List.not_mem_nil rfl rfl parse_registeringText rfl), rfl⟩

@[inherit_doc includeWithin_registering]
theorem evalWith_registeringInclusion (depth : Nat) (vars : Table Value) :
    ∃ t, registeringInclusion.evalWith registeringSource
        (Hooks.atDepth (registeringSource.includeWithin 2) registeringSource depth)
        (registeringState vars) = (.ok (.map (registeredVars "y" "p" "q")), t) ∧
      t.scope = (Scope.root vars).extend (registeredVars "y" "p" "q") := by
  obtain ⟨t, included, scope⟩ := includeWithin_registering vars
  refine ⟨t, ?_, scope⟩
  rw [registeringInclusion, evalWith_inclusion (evalWith_plainText rfl _) rfl, included]

/-- Arrows of a relation that the document has none of. -/
theorem registered_of_inclusion_flow :
    let src := registeringSource
    let hooks := Hooks.atDepth (src.includeWithin 2) src 0
    let s := registeringState (Table.insert (registeredVars "x" "a" "b") "Flow"
      (.list [plainRecord "c" "d"]))
    let target := Node.literal (.str "http://h/d" '"' none)
    ∃ given t, target.evalWith src hooks s = (.ok (.str "http://h/d"), s) ∧
      (Value.str "http://h/d").unwrapCall target = .ok (.str "http://h/d") ∧
      (Node.inclusion target ⟨3, 1⟩).evalWith src hooks s = (.ok given, t) ∧
      t.scope.records "Flow" = [plainRecord "c" "d"] := by
  intro src hooks s target
  obtain ⟨t, included⟩ := evalWith_registeringInclusion 0 (Table.insert
    (registeredVars "x" "a" "b") "Flow" (.list [plainRecord "c" "d"]))
  have evaluated : target.evalWith src hooks s = (.ok (.str "http://h/d"), s) :=
    evalWith_plainText rfl s
  obtain ⟨vars, same, -, -, kept, -⟩ := registered_of_inclusion evaluated rfl included.1
  refine ⟨_, t, evaluated, rfl, included.1, ?_⟩
  rw [← Value.map.inj same] at kept
  exact kept "Flow" rfl

/-- **An inclusion can replace what its caller has registered.** -/
theorem inclusion_replaces_registered :
    ∃ (s t : State) (v : Value),
      registeringSource.run (registrations "x" "a" "b") (registeringState []) = (.ok (), s) ∧
        registeringInclusion.eval registeringSource s = (.ok v, t) ∧
        "x" ∈ Table.keys (s.scope.bucket "k") ∧ "x" ∉ Table.keys (t.scope.bucket "k") ∧
        plainRecord "a" "b" ∈ s.scope.records "Edge" ∧
        plainRecord "a" "b" ∉ t.scope.records "Edge" := by
  obtain ⟨t, included, scope⟩ :=
    evalWith_registeringInclusion registeringInclusion.longestText (registeredVars "x" "a" "b")
  have labels : Table.keys (t.scope.bucket "k") = ["y"] := by
    rw [scope]
    rfl
  have arrows : t.scope.records "Edge" = [plainRecord "p" "q"] := by
    rw [scope]
    rfl
  have evaluated : registeringInclusion.eval registeringSource
      (registeringState (registeredVars "x" "a" "b")) =
        (.ok (.map (registeredVars "y" "p" "q")), t) := by
    rw [Node.eval, bind_apply, world_apply]
    exact included
  refine ⟨registeringState (registeredVars "x" "a" "b"), t, _, rfl, evaluated,
    List.mem_singleton.2 rfl, ?_, List.mem_singleton.2 rfl, ?_⟩
  · rw [labels]
    decide
  · rw [arrows]
    exact fun h => by simp [plainRecord] at h

end Eval

end BlockConfig
