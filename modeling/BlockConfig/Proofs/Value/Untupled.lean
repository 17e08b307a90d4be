import BlockConfig.Builtin
import BlockConfig.Eval.Calls
import BlockConfig.Eval.Evaluate

/-!
Values without tuples.

The tuple of a call is meant for the place where the call stands: there it is taken apart, or its elements
are. A value is *untupled* if there is no tuple in it at any depth (`Value.Untupled`), and the *result* of
a node is an untupled value or the tuple of a call, of which the elements are untupled (`Value.IsResult`).
Whatever takes a result apart gives an untupled value.

Operators give scalars or one of their operands, members are found in what was there before, and the
functions that every engine begins with give texts, numbers and lists of what they were given
(`Registry.untupled_builtins`).
-/

set_option autoImplicit false

namespace BlockConfig

/-! ## 1. Values and tables -/

namespace Value

/-- There is a tuple in a value, at some depth. -/
inductive HasTuple : Value → Prop
  | tuple (items : List Value) : HasTuple (.tuple items)
  | item {items : List Value} {v : Value} (mem : v ∈ items) (h : HasTuple v) : HasTuple (.list items)
  | entry {entries : List (String × Value)} {entry : String × Value} (mem : entry ∈ entries)
    (h : HasTuple entry.2) : HasTuple (.map entries)

/-- There is no tuple in a value. -/
def Untupled (v : Value) : Prop :=
  ¬ v.HasTuple

end Value

/-- There is no tuple in the values of a table. -/
def Table.Untupled (t : Table Value) : Prop :=
  ∀ entry ∈ t, entry.2.Untupled

namespace Value

/-- Whether a value has no parts. -/
def isScalar : Value → Bool
  | list _ | map _ | tuple _ => false
  | _ => true

/-- A value without parts holds nothing, so no tuple either. -/
theorem untupled_of_isScalar {v : Value} (h : v.isScalar = true) : v.Untupled := by
  intro tupled
  cases tupled <;> cases h

/-- A list is free of tuples if its items are. -/
@[simp] theorem untupled_list {items : List Value} :
    (list items).Untupled ↔ ∀ v ∈ items, v.Untupled := by
  constructor
  · exact fun h v hv tupled => h (.item hv tupled)
  · intro h tupled
    cases tupled with
    | item mem tupled => exact h _ mem tupled

/-- A map is free of tuples if the values of its entries are. -/
@[simp] theorem untupled_map {entries : Table Value} :
    (map entries).Untupled ↔ Table.Untupled entries := by
  constructor
  · exact fun h entry he tupled => h (.entry he tupled)
  · intro h tupled
    cases tupled with
    | entry mem tupled => exact h _ mem tupled

/-- A tuple is what the property excludes, also an empty one. -/
theorem not_untupled_tuple (items : List Value) : ¬ (tuple items).Untupled :=
  fun h => h (.tuple items)

end Value

namespace Table.Untupled

variable {t u : Table Value} {key : String} {v : Value}

theorem nil : Untupled [] :=
  fun _ he => absurd he List.not_mem_nil

/-- What is found in a table free of tuples is free of them. -/
theorem find? (h : Untupled t) (found : Table.find? t key = some v) : v.Untupled :=
  h _ (mem_of_find? found)

/-- What a missing key stands for is no tuple, so a lookup with that default is safe as well. -/
theorem getD (h : Untupled t) (key : String) : ((Table.find? t key).getD .undefined).Untupled := by
  cases found : Table.find? t key with
  | none => exact Value.untupled_of_isScalar rfl
  | some v => exact h.find? found

/-- An entry with a value free of tuples can be set in a table, whatever the key. -/
theorem insert (h : Untupled t) (hv : v.Untupled) (key : String) : Untupled (Table.insert t key v) := by
  intro entry he
  rcases mem_insert he with rfl | he
  · exact hv
  · exact h entry he

/-- Two tables free of tuples are so together: every value of the union is one of theirs. -/
theorem union (h : Untupled t) (hu : Untupled u) : Untupled (Table.union t u) := by
  intro entry he
  rcases mem_union he with he | he
  · exact h entry he
  · exact hu entry he

theorem cons (hv : v.Untupled) (h : Untupled t) : Untupled ((key, v) :: t) :=
  List.forall_mem_cons.2 ⟨hv, h⟩

end Table.Untupled

/-- There is no tuple in a scope. -/
def Scope.Untupled (s : Scope) : Prop :=
  ∀ vars ∈ s.own :: s.outer, Table.Untupled vars

namespace Scope.Untupled

variable {s : Scope} {vars : Table Value} {v : Value}

theorem own (h : s.Untupled) : Table.Untupled s.own :=
  h _ List.mem_cons_self

theorem root (h : Table.Untupled vars) : Untupled (.root vars) :=
  List.forall_mem_singleton.2 h

theorem child (h : s.Untupled) : s.child.Untupled :=
  List.forall_mem_cons.2 ⟨.nil, h⟩

/-- A name can be bound to a value free of tuples. -/
theorem set (h : s.Untupled) (hv : v.Untupled) (name : String) : (s.set name v).Untupled :=
  List.forall_mem_cons.2 ⟨h.own.insert hv name, (List.forall_mem_cons.1 h).2⟩

/-- All names of a table free of tuples can be bound at once, as an inclusion does. -/
theorem extend (h : s.Untupled) (hvars : Table.Untupled vars) : (s.extend vars).Untupled :=
  List.forall_mem_cons.2 ⟨h.own.union hvars, (List.forall_mem_cons.1 h).2⟩

theorem findOwn? (h : s.Untupled) {name : String} (found : s.findOwn? name = some v) : v.Untupled :=
  h.own.find? found

/-- What a name means in a scope is free of tuples: the own binding, that of a scope further out, or
undefined. -/
theorem lookup (h : s.Untupled) (name : String) : (s.lookup name).Untupled := by
  unfold Scope.lookup
  cases found : s.find? name with
  | none => exact Value.untupled_of_isScalar rfl
  | some v =>
    obtain ⟨vars, hvars, hfind⟩ := List.exists_of_findSome?_eq_some found
    exact (h vars hvars).find? hfind

end Scope.Untupled

/-! ## 2. Results -/

namespace Value

/-- What the evaluation of a node gives: an untupled value, or the tuple of a call. -/
def IsResult (v : Value) : Prop :=
  v.Untupled ∨ ∃ a e, v = tuple [a, e] ∧ a.Untupled ∧ e.Untupled

/-- What a call gives is a result: the tuple of a value and an error, of which one is null. -/
theorem isResult_ofCall {r : Except String Value} (h : ∀ v, r = .ok v → v.Untupled) :
    (ofCall r).IsResult := by
  cases r with
  | ok v => exact .inr ⟨v, null, rfl, h v rfl, untupled_of_isScalar rfl⟩
  | error message => exact .inr ⟨null, str message, rfl, untupled_of_isScalar rfl, untupled_of_isScalar rfl⟩

variable {v w : Value}

/-- The elements of the tuple of a call are untupled. -/
theorem IsResult.items {items : List Value} (h : (tuple items).IsResult) :
    ∀ v ∈ items, v.Untupled := by
  rcases h with h | ⟨a, e, same, ha, he⟩
  · exact absurd h (not_untupled_tuple items)
  · cases same
    exact List.forall_mem_cons.2 ⟨ha, List.forall_mem_singleton.2 he⟩

/-- A result is untupled unless it is the tuple of a call. -/
theorem IsResult.untupled (h : v.IsResult) (other : ∀ a e, v ≠ tuple [a, e]) : v.Untupled := by
  rcases h with h | ⟨a, e, same, -⟩
  · exact h
  · exact absurd same (other a e)

/-- Where the value of a call is used, its pair is taken apart. Either the value in it is handed on or its
message becomes an error, so nothing of the pair is left. -/
theorem IsResult.unwrapCall (h : v.IsResult) {n : Node} (taken : v.unwrapCall n = .ok w) :
    w.Untupled := by
  unfold Value.unwrapCall at taken
  split at taken
  · split at taken
    · cases taken
      exact h.items w List.mem_cons_self
    · cases taken
  · rename_i other
    cases taken
    exact h.untupled other

/-- The same holds of a step of a pipeline, which hands on the value in the pair and not the pair. -/
theorem IsResult.stepResult (h : v.IsResult) {name : String}
    (passed : Eval.stepResult name v = .ok w) : w.Untupled := by
  unfold Eval.stepResult at passed
  split at passed
  · split at passed
    · cases passed
      exact h.items w List.mem_cons_self
    · cases passed
  · rename_i other
    cases passed
    exact h.untupled other

/-- The elements of a result are untupled. -/
theorem IsResult.element (h : v.IsResult) {index : Nat} (taken : v.element index = .ok w) :
    w.Untupled := by
  unfold Value.element at taken
  split at taken
  · split at taken
    · rename_i found
      cases taken
      exact h.items w (List.mem_of_getElem? found)
    · cases taken
  · split at taken
    · rename_i found
      cases taken
      exact untupled_list.1 (h.untupled nofun) w (List.mem_of_getElem? found)
    · cases taken
  · rename_i notTuple notList
    split at taken
    · cases taken
      exact h.untupled fun a e => notTuple [a, e]
    · cases taken

/-- A block goes under its new name. -/
theorem Untupled.bound (h : v.Untupled) (name : String) : (v.bound name).Untupled := by
  unfold Value.bound
  split
  · exact untupled_map.2 (.cons h .nil)
  · exact h

/-- A block is free of tuples if its properties are; kind and label are texts. -/
theorem untupled_block (kind label : String) {props : Table Value} (h : Table.Untupled props) :
    (block kind label props).Untupled := by
  have text (s : String) : (str s).Untupled := untupled_of_isScalar rfl
  have entries : Table.Untupled [(typeKey, str kind), (labelKey, str label), (propsKey, map props)] :=
    .cons (text kind) (.cons (text label) (.cons (untupled_map.2 h) .nil))
  exact untupled_map.2 (Table.Untupled.nil.union entries)

end Value

/-! ## 3. Operators and members -/

/-- A result that is an error or a scalar. -/
def ScalarResult {ε : Type} (r : Except ε Value) : Prop :=
  ∀ v, r = .ok v → v.isScalar = true

namespace ScalarResult

variable {α ε : Type}

/-- A scalar is a scalar result. -/
theorem ok {v : Value} (h : v.isScalar = true) : ScalarResult (.ok v : Except ε Value) := by
  rintro _ ⟨⟩
  exact h

/-- An error is a scalar result, since it gives no value at all. -/
theorem error (e : ε) : ScalarResult (.error e) :=
  nofun

/-- A scalar result may depend on anything that was computed before. -/
theorem bind {x : Except ε α} {f : α → Except ε Value} (hf : ∀ a, ScalarResult (f a)) :
    ScalarResult (x >>= f) := by
  cases x with
  | error e => exact error e
  | ok a => exact hf a

end ScalarResult

namespace Value

variable (op : BinaryOp) (v l r : Value)

/-- Integer arithmetic that is checked for overflow gives an integer or an error. -/
theorem scalar_checked (symbol : String) (i : Int) : ScalarResult (checked symbol i) := by
  unfold checked
  split
  · exact .ok rfl
  · exact .error _

/-- An operation on numbers gives a number, whichever of the two kinds the operands have. -/
theorem scalar_numericOp (ints : Int → Int → Int) (floats : Float → Float → Float) :
    ScalarResult (numericOp op ints floats l r) := by
  refine .bind fun a => .bind fun b => ?_
  unfold onNumbers
  split
  · exact scalar_checked _ _
  · exact .ok rfl

/-- Addition gives a number or, where a text is among the operands, a text. -/
theorem scalar_add : ScalarResult (add l r) := by
  unfold add
  split
  · exact .ok rfl
  · split
    · exact .ok rfl
    · exact .error _
  · split
    · exact .ok rfl
    · exact .error _
  · exact scalar_numericOp _ _ _ _ _

/-- Division gives a number or an error, the check for zero included. -/
theorem scalar_divide : ScalarResult (divide l r) := by
  refine .bind fun a => .bind fun b => ?_
  by_cases zero : b.isZero = true
  · rw [if_pos zero]
    exact .error _
  · rw [if_neg zero]
    split
    · split
      · exact .error _
      · split <;> exact .ok rfl
    · exact .ok rfl

/-- The remainder is a number or an error, as the quotient is. -/
theorem scalar_remainder : ScalarResult (remainder l r) := by
  refine .bind fun a => .bind fun b => ?_
  dsimp only
  split
  · exact .error _
  · split
    · exact .error _
    · exact .ok rfl

/-- A comparison gives a truth value, or refuses to compare. -/
theorem scalar_compare : ScalarResult (compare op l r) := by
  unfold compare
  split
  · exact .ok rfl
  · split
    · exact .ok rfl
    · exact .error _

/-- The two logical operators give a truth value of their operands' truth. -/
theorem scalar_logical : ScalarResult (logical op l r) := by
  unfold logical
  split
  · exact .ok rfl
  · exact .error _

/-- Shifts give an integer, or refuse operands that are none. -/
theorem scalar_shift (f : Int64 → Int64 → Int64) : ScalarResult (shift op f l r) := by
  refine .bind fun a => .bind fun b => ?_
  dsimp only
  split
  · exact .ok rfl
  · exact .error _

/-- All operators but one give scalars. -/
theorem scalar_binary (h : op ≠ .coalesce) : ScalarResult (binary op l r) := by
  have bits (f : Int64 → Int64 → Int64) : ScalarResult (bitwise op f l r) :=
    .bind fun a => .bind fun b => .ok rfl
  cases op with
  | add => exact scalar_add l r
  | sub | mul => exact scalar_numericOp _ _ _ _ _
  | div => exact scalar_divide l r
  | mod => exact scalar_remainder l r
  | eq | ne => exact .ok rfl
  | coalesce => exact absurd rfl h
  | lt | le | gt | ge => exact scalar_compare _ _ _
  | and | or => exact scalar_logical _ _ _
  | bitAnd | bitOr | bitXor => exact bits _
  | shl | shr => exact scalar_shift _ _ _ _

variable {op v l r} {w : Value}

/-- Of operands free of tuples a binary operator gives a value free of them. Most operators give scalars;
the operator for missing values hands on one of its operands. -/
theorem Untupled.binary (hl : l.Untupled) (hr : r.Untupled) (given : Value.binary op l r = .ok w) :
    w.Untupled := by
  by_cases h : op = .coalesce
  · -- This one gives one of its operands.
    subst h
    have given : (if l.isNullish then r else l) = w := Except.ok.inj given
    rw [← given]
    split
    · exact hr
    · exact hl
  · exact untupled_of_isScalar (scalar_binary op l r h w given)

/-- A prefix operator gives a scalar or an error, so nothing needs to be known of its operand. -/
theorem untupled_unary {op : UnaryOp} (given : unary op v = .ok w) : w.Untupled := by
  have scalar : ScalarResult (unary op v) := by
    unfold unary negate
    split
    · dsimp only
      split
      · exact scalar_checked _ _
      · exact .ok rfl
      · exact .error _
    · split
      · exact .ok rfl
      · exact .error _
  exact untupled_of_isScalar (scalar w given)

/-- The properties of an untupled block. -/
theorem untupled_property {block : Table Value} (h : Table.Untupled block) (name : String) :
    (property block name).Untupled := by
  unfold property
  split
  · rename_i props found
    exact Table.Untupled.getD (untupled_map.1 (h.find? found)) name
  · exact untupled_of_isScalar rfl

/-- A member of a map is one of its values, or what the name of the member means in the scope. -/
theorem untupled_tableMember {entries : Table Value} (h : Table.Untupled entries) {scope : Scope}
    (hscope : scope.Untupled) (name : String) : (tableMember entries name scope).Untupled := by
  unfold tableMember
  split
  · rename_i direct found
    cases hidden : scope.findOwn? name with
    | none => exact h.find? found
    | some v => exact hscope.findOwn? hidden
  · split
    · exact untupled_property h name
    · split
      · have hinner := h _ List.mem_cons_self
        split
        · exact untupled_property (untupled_map.1 hinner) name
        · exact untupled_of_isScalar rfl
      · exact untupled_of_isScalar rfl

/-- A member of a list is one of its items, a list of members of its items, or what the name means in the
scope. -/
theorem untupled_listMember {items : List Value} (h : ∀ v ∈ items, v.Untupled) {scope : Scope}
    (hscope : scope.Untupled) (name : String) : (listMember items name scope).Untupled := by
  unfold listMember
  cases found : items.find? (hasLabel name) with
  | none => exact untupled_of_isScalar rfl
  | some block =>
    have hblock := h block (List.mem_of_find?_eq_some found)
    dsimp only
    cases hidden : scope.findOwn? name with
    | none =>
      unfold propsEntry
      split
      · exact Table.Untupled.getD (untupled_map.1 hblock) propsKey
      · exact untupled_of_isScalar rfl
    | some v => exact hscope.findOwn? hidden

/-- A member of a value free of tuples is free of them, be it an entry of a map, taken from the items of a
list, or read from the environment. -/
theorem Untupled.member (h : v.Untupled) {scope : Scope} (hscope : scope.Untupled) {name : String}
    {envValue? : String → Option String} (given : Value.member v name scope envValue? = .ok w) :
    w.Untupled := by
  unfold Value.member at given
  split at given
  · cases given
    exact untupled_of_isScalar rfl
  · cases given
    exact untupled_tableMember (untupled_map.1 h) hscope name
  · split at given
    · cases given
      exact untupled_listMember (untupled_list.1 h) hscope name
    · cases given
  · cases given
    exact untupled_of_isScalar rfl
  · cases given

end Value

/-! ## 4. Registered functions -/

/-- A reply without tuples. -/
def Reply.Untupled : Reply → Prop
  | .value v => v.Untupled
  | .error _ | .abort _ => True

/-- A function that gives no tuples if it is given none. -/
def Callable.Untupled (f : Callable) : Prop :=
  ∀ args m, (∀ v ∈ args, v.Untupled) → (f args m).1.Untupled

/-- Functions that give no tuples if they are given none. -/
def Registry.Untupled (r : Registry) : Prop :=
  ∀ name f, r.lookup name = some f → f.Untupled

/-- A function that is found in a registry is one that was registered, under whatever spelling of its
name. -/
theorem Registry.Untupled.function {src : Source} (h : src.engine.functions.Untupled) {name : String}
    {f : Callable} (found : Eval.function src name = .ok f) : f.Untupled := by
  unfold Eval.function at found
  split at found
  · rename_i known
    cases found
    exact h name f known
  · cases found

namespace Builtin

/-- A function without memory that gives no tuples if it is given none. -/
def Pure.Untupled (f : Pure) : Prop :=
  ∀ args, (∀ v ∈ args, v.Untupled) → (f args).Untupled

/-- A scalar is a reply without tuples. -/
theorem untupled_scalar {v : Value} (h : v.isScalar = true) : (Reply.value v).Untupled :=
  Value.untupled_of_isScalar h

/-- Checking the number of arguments adds an error and no value. -/
theorem Pure.Untupled.withArity {f : Pure} (h : Pure.Untupled f) (name : String) (least most : Nat) :
    Pure.Untupled (withArity name least most f) := by
  intro args hargs
  unfold Builtin.withArity
  split
  · exact h args hargs
  · trivial

/-- An argument that is missing is undefined, so each argument may be used without asking whether it is
there. -/
theorem untupled_arg {args : List Value} (h : ∀ v ∈ args, v.Untupled) (i : Nat) :
    (arg args i).Untupled := by
  unfold arg
  rw [List.getD_eq_getElem?_getD]
  cases found : args[i]? with
  | none => exact Value.untupled_of_isScalar rfl
  | some v => exact h v (List.mem_of_getElem? found)

theorem untupled_doesMatch : Pure.Untupled doesMatch := by
  refine .withArity (fun args _ => ?_) _ _ _
  split
  · exact untupled_scalar rfl
  · trivial

/-- Replacing gives a text. -/
theorem untupled_replace : Pure.Untupled replace := by
  refine .withArity (fun args _ => ?_) _ _ _
  split
  · trivial
  · exact untupled_scalar rfl

/-- Reversing gives a text, or the items of a list in another order. -/
theorem untupled_reverse : Pure.Untupled reverse := by
  refine .withArity (fun args hargs => ?_) _ _ _
  have h := untupled_arg hargs 0
  split
  · rename_i items same
    rw [same, Value.untupled_list] at h
    exact Value.untupled_list.2 fun v hv => h v (List.mem_reverse.1 hv)
  · exact untupled_scalar rfl

/-- A scalar result stays one when its error becomes the message of a call. -/
theorem untupled_reply {r : Except String Value} (h : ScalarResult r) : (reply r).Untupled := by
  cases r with
  | ok v => exact untupled_scalar (h v rfl)
  | error message => trivial

/-- A part of a text is a text. -/
theorem untupled_substring : Pure.Untupled substring := by
  refine .withArity (fun args _ => untupled_reply ?_) _ _ _
  refine .bind fun start => ?_
  dsimp only
  -- The end of the range is an argument or the end of the text.
  split
  all_goals
    refine .bind fun stop => ?_
    split
    · exact .error _
    · exact .ok rfl

/-- Splitting gives a list of texts. -/
theorem untupled_split : Pure.Untupled split := by
  refine .withArity (fun args _ => ?_) _ _ _
  refine Value.untupled_list.2 fun v hv => ?_
  obtain ⟨piece, -, rfl⟩ := List.mem_map.1 hv
  exact untupled_scalar rfl

/-- Joining gives a text. -/
theorem untupled_join : Pure.Untupled join := by
  refine .withArity (fun args _ => ?_) _ _ _
  dsimp only
  split
  · exact untupled_scalar rfl
  · exact untupled_scalar rfl

theorem untupled_index : Pure.Untupled index := by
  refine .withArity (fun args _ => ?_) _ _ _
  split
  · exact untupled_scalar rfl
  · exact untupled_scalar rfl

/-- Repeating gives a text or, where it would become too long, an error. -/
theorem untupled_repeatText : Pure.Untupled repeatText := by
  refine .withArity (fun args _ => ?_) _ _ _
  split
  · trivial
  · dsimp only
    split
    · trivial
    · split
      · exact untupled_scalar rfl
      · split
        · trivial
        · exact untupled_scalar rfl

/-- Reading a number gives a number or an error. -/
theorem untupled_number : Pure.Untupled number := by
  refine .withArity (fun args _ => ?_) _ _ _
  dsimp only
  split
  · rename_i n _
    cases n <;> exact untupled_scalar rfl
  · trivial

/-- All builtins are free of tuples. They are gone through one by one here, in the order of their table. -/
theorem untupled_all : ∀ entry ∈ all, Pure.Untupled entry.2 := by
  have scalars {f : List Value → Value} (h : ∀ args, (f args).isScalar = true) {name : String}
      {least most : Nat} :
      Pure.Untupled (Builtin.withArity name least most fun args => .value (f args)) :=
    .withArity (fun args _ => untupled_scalar (h args)) name least most
  unfold all
  simp only [List.forall_mem_cons]
  refine ⟨scalars fun _ => rfl, scalars fun _ => rfl, scalars fun _ => rfl, scalars fun _ => rfl,
    scalars fun _ => rfl, scalars fun _ => rfl, untupled_replace, untupled_reverse,
    untupled_substring, untupled_split, untupled_join, scalars fun _ => rfl, scalars fun _ => rfl,
    untupled_index, scalars fun _ => rfl, scalars fun _ => rfl, untupled_repeatText,
    untupled_doesMatch, scalars fun _ => rfl, untupled_number, ?_⟩
  exact fun _ mem => absurd mem List.not_mem_nil

end Builtin

/-- **The functions of a new engine give no tuples if they are given none.** They come from one table, whose
members have been gone through. -/
theorem Registry.untupled_builtins : Registry.Untupled .builtins := by
  intro name f found
  have entry := (Table.mem_union (Table.mem_of_find? found)).resolve_left List.not_mem_nil
  obtain ⟨⟨key, reply⟩, mem, same⟩ := List.mem_map.1 entry
  obtain ⟨-, rfl⟩ := Prod.mk.inj same
  exact fun args _ hargs => Builtin.untupled_all _ mem args hargs

end BlockConfig
