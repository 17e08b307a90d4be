import BlockConfig.Proofs.Eval.Parts
import BlockConfig.Proofs.Inclusion.Registered

/-!
The blocks of a scope.

A block is kept twice: under its label, and under its kind, in the bucket of all blocks of the kind.
Each block that is evaluated writes both entries and must not lose what the others have written.
`Gathered` says what the scope holds after some blocks; it holds of a scope without names, and one
more block keeps it if its label is no other block's and no block's kind (`Gathered.register`).

Reading a block back goes through the rules for members, of which several compete: a name of the
scope hides the entry of a bucket, and the properties of a block come behind its own three entries.
That the block itself is what stands in the scope under its label makes the first rule harmless.
-/

set_option autoImplicit false

namespace BlockConfig

/-- A block statement with a label. -/
structure LabelledBlock where
  kind : String
  label : String
  body : List Node
  pos : Position

namespace LabelledBlock

/-- The statement. -/
def node (b : LabelledBlock) : Node :=
  .block b.kind (some b.label) b.body b.pos

/-- Blocks that can stand in one scope without hiding one another. -/
structure Distinct (blocks : List LabelledBlock) : Prop where
  /-- No two of them have one label. -/
  labels : (blocks.map label).Nodup
  /-- None of them is called like a kind. -/
  kinds : ∀ b ∈ blocks, ∀ b' ∈ blocks, b.label ≠ b'.kind
  /-- None of them makes its bucket look like a block. -/
  untyped : ∀ b ∈ blocks, b.label ≠ typeKey
  /-- None of them is called like the environment, or is of such a kind. -/
  env : ∀ b ∈ blocks, b.label ≠ "env" ∧ b.kind ≠ "env"

theorem Distinct.sublist {blocks part : List LabelledBlock} (h : Distinct blocks)
    (sub : part.Sublist blocks) : Distinct part where
  labels := h.labels.sublist (sub.map label)
  kinds b mem b' mem' := h.kinds b (sub.subset mem) b' (sub.subset mem')
  untyped b mem := h.untyped b (sub.subset mem)
  env b mem := h.env b (sub.subset mem)

end LabelledBlock

/-- A table has a value for each of its keys. -/
theorem Table.isSome_find?_iff {α : Type} {t : Table α} {k : String} :
    (find? t k).isSome ↔ k ∈ keys t := by
  induction t with
  | nil => simp [find?, keys]
  | cons entry t ih =>
    rw [find?, keys, List.map_cons, List.mem_cons]
    split
    · rename_i same
      exact iff_of_true rfl (.inl same)
    · rename_i other
      exact ih.trans (or_iff_right other).symm

namespace Eval

variable {src : Source} {hooks : Hooks} {s t : State} {done rest : List (LabelledBlock × Value)}
  {b : LabelledBlock} {v : Value}

/-! ## 1. What a scope holds after some blocks -/

/-- What is found in a scope of which some blocks, with their values, have been registered. -/
structure Gathered (done : List (LabelledBlock × Value)) (scope : Scope) : Prop where
  /-- Under its label a block is found. -/
  label : ∀ e ∈ done, scope.findOwn? e.1.label = some e.2
  /-- Under a kind a bucket is found. -/
  kind : ∀ e ∈ done, scope.findOwn? e.1.kind = some (.map (scope.bucket e.1.kind))
  /-- In the bucket of a kind are the blocks of this kind. -/
  bucket : ∀ kind, (∀ e ∈ done, e.1.label ≠ kind) → ∀ l v,
    Table.find? (scope.bucket kind) l = some v ↔ ∃ e ∈ done, e.1.kind = kind ∧ e.1.label = l ∧ e.2 = v

theorem gathered_nil {scope : Scope} (h : scope.own = []) : Gathered [] scope where
  label := by simp
  kind := by simp
  bucket kind _ l v := by simp [Scope.bucket, Scope.findOwn?, h, Table.find?]

theorem isBlockTable_insert {entries : Table Value} {name : String} (other : name ≠ typeKey) :
    isBlockTable (Table.insert entries name v) = isBlockTable entries := by
  rw [isBlockTable, isBlockTable, Table.contains, Table.contains, Table.find?_insert,
    if_neg other.symm]

/-- The bucket of a kind is no block, so a member of it is looked up by its label and not among the
properties of a block. -/
theorem isBlockTable_bucket (scope : Scope) (kind : String) :
    isBlockTable (scope.bucket kind) = false := by
  unfold Scope.bucket
  rcases scope.findOwn? kind with _ | v
  · rfl
  · cases v with
    | map entries =>
      show isBlockTable (if isBlockTable entries then [] else entries) = false
      split
      · rfl
      · rename_i plain
        exact Bool.eq_false_iff.mpr plain
    | _ => rfl

/-- The scope after a block has been registered. -/
def withBlock (scope : Scope) (b : LabelledBlock) (v : Value) : Scope :=
  (scope.set b.kind (.map (Table.insert (scope.bucket b.kind) b.label v))).set b.label v

theorem findOwn?_withBlock (scope : Scope) (name : String) :
    (withBlock scope b v).findOwn? name =
      if name = b.label then some v
      else if name = b.kind then some (.map (Table.insert (scope.bucket b.kind) b.label v))
      else scope.findOwn? name := by
  rw [withBlock, Scope.findOwn?_set, Scope.findOwn?_set]

/-- A block changes the bucket of its kind only, if its label is not the name of another one. -/
theorem bucket_withBlock (scope : Scope) {kind : String} (other : b.label ≠ kind)
    (untyped : b.label ≠ typeKey) :
    (withBlock scope b v).bucket kind =
      if kind = b.kind then Table.insert (scope.bucket kind) b.label v else scope.bucket kind := by
  rw [Scope.bucket, findOwn?_withBlock, if_neg other.symm]
  split
  · rename_i same
    show (if isBlockTable _ then [] else _) = _
    rw [isBlockTable_insert untyped, isBlockTable_bucket, same]
    rfl
  · rfl

/-- One more block is gathered beside the others. -/
theorem Gathered.register {scope : Scope} (h : Gathered done scope)
    (distinct : LabelledBlock.Distinct ((done ++ [(b, v)]).map Prod.fst)) :
    Gathered (done ++ [(b, v)]) (withBlock scope b v) := by
  have listed (e : LabelledBlock × Value) (mem : e ∈ done) : e.1 ∈ (done ++ [(b, v)]).map Prod.fst :=
    List.mem_map_of_mem (List.mem_append_left _ mem)
  have last : b ∈ (done ++ [(b, v)]).map Prod.fst := by simp
  have untyped := distinct.untyped b last
  have fresh (e : LabelledBlock × Value) (mem : e ∈ done) : e.1.label ≠ b.label := by
    have := distinct.labels
    simp only [List.map_append, List.map_cons, List.map_nil, List.nodup_append] at this
    exact this.2.2 _ (List.mem_map_of_mem (List.mem_map_of_mem mem)) _ (by simp)
  refine ⟨fun e mem => ?_, fun e mem => ?_, fun kind others l w => ?_⟩
  · rw [findOwn?_withBlock]
    rcases List.mem_append.mp mem with mem | mem
    · rw [if_neg (fresh e mem), if_neg (distinct.kinds _ (listed e mem) _ last), h.label e mem]
    · obtain rfl := List.mem_singleton.mp mem
      rw [if_pos rfl]
  · have other : b.label ≠ e.1.kind := distinct.kinds _ last _ (List.mem_map_of_mem mem)
    rw [findOwn?_withBlock, bucket_withBlock scope other untyped, if_neg other.symm]
    split
    · rename_i same
      rw [same]
    · rename_i different
      rcases List.mem_append.mp mem with mem | mem
      · exact h.kind e mem
      · obtain rfl := List.mem_singleton.mp mem
        exact absurd rfl different
  · have other : b.label ≠ kind := others (b, v) (by simp)
    have before := h.bucket kind (fun e mem => others e (List.mem_append_left _ mem)) l w
    rw [bucket_withBlock scope other untyped]
    simp only [List.mem_append, List.mem_singleton, or_and_right, exists_or, exists_eq_left]
    -- The bucket of the kind of the block has one more label, and the others are as they were.
    by_cases same : kind = b.kind
    · by_cases named : l = b.label
      · rw [if_pos same, Table.find?_insert, if_pos named]
        constructor
        · exact fun eq => .inr ⟨same.symm, named.symm, Option.some.inj eq⟩
        · rintro (⟨e, mem, -, found, -⟩ | ⟨-, -, rfl⟩)
          · exact absurd (found.trans named) (fresh e mem)
          · rfl
      · rw [if_pos same, Table.find?_insert, if_neg named, before]
        exact (or_iff_left fun new => named new.2.1.symm).symm
    · rw [if_neg same, before]
      exact (or_iff_left fun new => same new.1.symm).symm

/-! ## 2. Evaluating blocks one after another -/

/-- Blocks are evaluated one after another, each with a value. -/
inductive Blocks (src : Source) (hooks : Hooks) :
    State → List (LabelledBlock × Value) → State → Prop
  | nil {s : State} : Blocks src hooks s [] s
  | cons {s t u : State} {b : LabelledBlock} {v : Value} {rest : List (LabelledBlock × Value)} :
      b.node.evalWith src hooks s = (.ok v, t) → Blocks src hooks t rest u →
      Blocks src hooks s ((b, v) :: rest) u

/-- Statements that are blocks and succeed have values. -/
theorem exists_blocks {blocks : List LabelledBlock}
    (h : evalStatements src hooks (blocks.map LabelledBlock.node) s = (.ok (), t)) :
    ∃ done, done.map Prod.fst = blocks ∧ Blocks src hooks s done t := by
  induction blocks generalizing s with
  | nil =>
    cases h
    exact ⟨[], rfl, .nil⟩
  | cons b blocks ih =>
    rw [List.map_cons, evalStatements] at h
    obtain ⟨v, u, first, h⟩ := bind_eq_ok h
    obtain ⟨done, rfl, ran⟩ := ih h
    exact ⟨(b, v) :: done, rfl, .cons (locating_eq_ok first) ran⟩

/-- A block that succeeds is registered with its value; the scope changes in no other way. -/
theorem evalWith_node (h : b.node.evalWith src hooks s = (.ok v, t)) :
    (∃ props, v = .block b.kind b.label props) ∧ t.scope = withBlock s.scope b v := by
  rw [LabelledBlock.node, Node.evalWith] at h
  obtain ⟨props, u, body, registered⟩ := bind_eq_ok h
  have same : u.scope = s.scope := by
    have := scope_within Scope.child (evalStatements src hooks b.body) s
    rwa [← inChild, body] at this
  rw [registerBlock_apply] at registered
  cases registered
  exact ⟨⟨_, rfl⟩, by rw [withBlock, same]; rfl⟩

/-- After some blocks with distinct labels everything is found that has been registered. The induction is on
the blocks that are still to come. -/
theorem Blocks.gathered (ran : Blocks src hooks s rest t) (h : Gathered done s.scope)
    (distinct : LabelledBlock.Distinct ((done ++ rest).map Prod.fst)) :
    Gathered (done ++ rest) t.scope := by
  induction ran generalizing done with
  | nil => simpa using h
  | @cons s t u b v rest first _ ih =>
    have split : done ++ (b, v) :: rest = (done ++ [(b, v)]) ++ rest := by simp
    rw [split] at distinct ⊢
    refine ih ?_ distinct
    rw [(evalWith_node first).2]
    exact h.register (distinct.sublist ((List.sublist_append_left ..).map Prod.fst))

theorem Blocks.value (ran : Blocks src hooks s rest t) {e : LabelledBlock × Value}
    (mem : e ∈ rest) : ∃ props, e.2 = .block e.1.kind e.1.label props := by
  induction ran with
  | nil => exact absurd mem List.not_mem_nil
  | cons first _ ih =>
    rcases List.mem_cons.mp mem with rfl | mem
    · exact (evalWith_node first).1
    · exact ih mem

/-! ## 3. Reading blocks back -/

section Members

variable {kind label name : String} {props entries : Table Value} {n : Node} {target : Value}

/-- The entries of a block. -/
def blockEntries (kind label : String) (props : Table Value) : Table Value :=
  Table.ofEntries [(typeKey, .str kind), (labelKey, .str label), (propsKey, .map props)]

theorem find?_blockEntries (key : String) : Table.find? (blockEntries kind label props) key =
    if key = propsKey then some (.map props) else if key = labelKey then some (.str label)
    else if key = typeKey then some (.str kind) else none := by
  simp only [blockEntries, Table.ofEntries, Table.union, List.foldl_cons, List.foldl_nil,
    Table.find?_insert]
  rfl

/-- A member of a block that is none of its own entries is a property. -/
theorem member_block (scope : Scope) (envValue? : String → Option String)
    (plain : name ∉ [typeKey, labelKey, propsKey]) :
    (Value.block kind label props).member name scope envValue? =
      .ok ((Table.find? props name).getD .undefined) := by
  simp only [List.mem_cons, List.not_mem_nil, or_false, not_or] at plain
  have is_block : isBlockTable (blockEntries kind label props) = true := by
    rw [isBlockTable, Table.contains, find?_blockEntries]
    rfl
  have own : Table.find? (blockEntries kind label props) name = none := by
    rw [find?_blockEntries, if_neg plain.2.2, if_neg plain.2.1, if_neg plain.1]
  show (Value.map (blockEntries kind label props)).member name scope envValue? = _
  simp only [Value.member, Value.tableMember, own, is_block, if_true, Value.property,
    find?_blockEntries]

/-- A block in a bucket is its member, also where the scope has a variable of that name, if this is
the block. -/
theorem member_bucket (scope : Scope) (envValue? : String → Option String)
    (found : Table.find? entries label = some v) (direct : scope.findOwn? label = some v) :
    (Value.map entries).member label scope envValue? = .ok v := by
  simp only [Value.member, Value.tableMember, found, direct, Option.getD_some]

theorem evalWith_ident (other : name ≠ "env") (found : s.scope.findOwn? name = some v) :
    (Node.ident name).evalWith src hooks s = (.ok v, s) := by
  have : s.scope.lookup name = v := by
    rw [Scope.findOwn?] at found
    simp [Scope.lookup, Scope.find?, found]
  rw [Node.evalWith, if_neg other, bind_apply, scope_apply]
  exact Prod.ext (congrArg Except.ok this) rfl

theorem evalWith_member (target : Value) (left : n.evalWith src hooks s = (.ok target, s))
    (whole : target.unwrapCall n = .ok target)
    (member : ∀ envValue?, target.member name s.scope envValue? = .ok v) :
    (Node.member n name).evalWith src hooks s = (.ok v, s) := by
  rw [Node.evalWith, bind_apply, left]
  dsimp only
  rw [bind_apply, ofExcept_apply, whole]
  exact congrArg (fun r => ofExcept r s) (member _)

end Members

/-- How the blocks of a scope are found again. -/
structure Reachable (blocks : List LabelledBlock) (scope : Scope) (b : LabelledBlock) (v : Value) :
    Prop where
  /-- The own table has the block under its label. -/
  direct : scope.findOwn? b.label = some v
  /-- The own table has under its kind a plain map of the blocks of the kind, with their labels for
  keys. -/
  bucket : ∃ entries, scope.findOwn? b.kind = some (.map entries) ∧ isBlockTable entries = false ∧
    Table.find? entries b.label = some v ∧
    ∀ l, l ∈ Table.keys entries ↔ ∃ b' ∈ blocks, b'.kind = b.kind ∧ b'.label = l
  /-- Both ways of naming a member of the block give its property. -/
  member : ∃ props, v = .block b.kind b.label props ∧
    ∀ name ∉ [typeKey, labelKey, propsKey], ∀ src hooks (s : State), s.scope = scope →
      (Node.member (.member (.ident b.kind) b.label) name).evalWith src hooks s =
        (.ok ((Table.find? props name).getD .undefined), s) ∧
      (Node.member (.ident b.label) name).evalWith src hooks s =
        (.ok ((Table.find? props name).getD .undefined), s)

/-- What a scope holds is enough to find its blocks again. -/
theorem Gathered.reachable {scope : Scope} (h : Gathered done scope)
    (distinct : LabelledBlock.Distinct (done.map Prod.fst)) {e : LabelledBlock × Value}
    (mem : e ∈ done) {props : Table Value} (block : e.2 = .block e.1.kind e.1.label props) :
    Reachable (done.map Prod.fst) scope e.1 e.2 := by
  have listed : e.1 ∈ done.map Prod.fst := List.mem_map_of_mem mem
  have others (e' : LabelledBlock × Value) (mem' : e' ∈ done) : e'.1.label ≠ e.1.kind :=
    distinct.kinds _ (List.mem_map_of_mem mem') _ listed
  have bucket := h.bucket e.1.kind others
  have here : Table.find? (scope.bucket e.1.kind) e.1.label = some e.2 :=
    (bucket _ _).mpr ⟨e, mem, rfl, rfl, rfl⟩
  refine ⟨h.label e mem, ⟨_, h.kind e mem, isBlockTable_bucket .., here, fun l => ?_⟩,
    props, block, fun name plain src hooks s in_scope => ⟨?_, ?_⟩⟩
  · rw [← Table.isSome_find?_iff, Option.isSome_iff_exists]
    simp only [bucket, List.mem_map]
    constructor
    · rintro ⟨v, e', mem', kind, label, -⟩
      exact ⟨e'.1, ⟨e', mem', rfl⟩, kind, label⟩
    · rintro ⟨_, ⟨e', mem', rfl⟩, kind, label⟩
      exact ⟨e'.2, e', mem', kind, label, rfl⟩
  · refine evalWith_member e.2 ?_ (by rw [block]; rfl) fun envValue? => ?_
    · refine evalWith_member (.map (scope.bucket e.1.kind)) ?_ rfl fun envValue? => ?_
      · exact evalWith_ident (distinct.env _ listed).2 (in_scope ▸ h.kind e mem)
      · exact member_bucket s.scope envValue? here (in_scope ▸ h.label e mem)
    · rw [block, member_block _ _ plain]
  · refine evalWith_member e.2 ?_ (by rw [block]; rfl) fun envValue? => ?_
    · exact evalWith_ident (distinct.env _ listed).1 (in_scope ▸ h.label e mem)
    · rw [block, member_block _ _ plain]

/-- **The blocks of a scope all stay reachable.** Whatever blocks with labels are evaluated one after
another in a scope without names of its own, if they succeed and do not hide one another, then each of
them is found under its label with the value that it was evaluated to, and under its kind beside all
others of the kind, and both ways its members are its properties. -/
theorem blocks_reachable {blocks : List LabelledBlock} (distinct : LabelledBlock.Distinct blocks)
    (fresh : s.scope.own = [])
    (ran : evalStatements src hooks (blocks.map LabelledBlock.node) s = (.ok (), t)) :
    ∃ done, done.map Prod.fst = blocks ∧ Blocks src hooks s done t ∧
      ∀ e ∈ done, Reachable blocks t.scope e.1 e.2 := by
  obtain ⟨done, rfl, blocks⟩ := exists_blocks ran
  refine ⟨done, rfl, blocks, fun e mem => ?_⟩
  obtain ⟨props, block⟩ := blocks.value mem
  exact (blocks.gathered (gathered_nil fresh) distinct).reachable distinct mem block

/-- Three blocks of two kinds, one with a property. -/
def sampleBlocks : List LabelledBlock :=
  [⟨"server", "web", [.assign ⟨"port", ⟨1, 14⟩⟩ (.literal (.int 80)) .equals], ⟨1, 1⟩⟩,
    ⟨"host", "a", [], ⟨2, 1⟩⟩, ⟨"server", "db", [], ⟨3, 1⟩⟩]

/-- Three blocks of two kinds, in a scope that begins with nothing. -/
theorem blocks_reachable_sampleBlocks :
    let hooks := Hooks.atDepth (registeringSource.includeWithin 2) registeringSource 0
    ∃ (t : State) (done : List (LabelledBlock × Value)), LabelledBlock.Distinct sampleBlocks ∧
      (registeringState []).scope.own = [] ∧
      evalStatements registeringSource hooks (sampleBlocks.map LabelledBlock.node)
        (registeringState []) = (.ok (), t) ∧
      done.map Prod.fst = sampleBlocks ∧
      Blocks registeringSource hooks (registeringState []) done t ∧
      ∀ e ∈ done, Reachable sampleBlocks t.scope e.1 e.2 := by
  intro hooks
  have distinct : LabelledBlock.Distinct sampleBlocks :=
    ⟨by decide, by simp [sampleBlocks], by simp [sampleBlocks, typeKey], by simp [sampleBlocks]⟩
  have ran : evalStatements registeringSource hooks (sampleBlocks.map LabelledBlock.node)
      (registeringState []) = (.ok (), _) := rfl
  obtain ⟨done, listed, blocks, reachable⟩ := blocks_reachable distinct rfl ran
  exact ⟨_, done, distinct, rfl, ran, listed, blocks, reachable⟩

end Eval

end BlockConfig
