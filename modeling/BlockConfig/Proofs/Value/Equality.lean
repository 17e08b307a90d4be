import BlockConfig.Proofs.Value.Order

/-!
Equality.

Two values are *alike* if they have the same structure and the same scalars in it, where a number is what
it counts, be it an integer or a float (`Alike`). This file compares `==` with that. Both go down through
lists side by side. There are two things that `==` sees differently. Inside a table or a tuple it asks for
sameness, so that an integer there never equals a float. And outside of them it compares an integer with a
float by making it a double, so that a large integer equals the float it is rounded to. Where neither
happens (`UnmixedInside`, `ExactOutside`), `==` is likeness (`equality_of_values`).

Places are described by pairs: `Faces` says which two values stand at the same place of two values, and
whether a table or a tuple is on the way there. What `==` and sameness say of two containers of one kind
is what they say of each two facing parts, and that carries the induction.
-/

set_option autoImplicit false

namespace BlockConfig.Value

open Decimal

/-! ## 1. Parts -/

/-- The values that a value is made of. -/
def parts : Value → List Value
  | list items => items
  | tuple items => items
  | map entries => entries.map Prod.snd
  | _ => []

/-- The parts of a value are smaller than it, so a recursion over parts ends. -/
theorem sizeOf_lt_of_mem_parts {v a : Value} (h : a ∈ v.parts) : sizeOf a < sizeOf v := by
  cases v with
  | list items =>
    have : sizeOf a < sizeOf items := List.sizeOf_lt_of_mem h
    simp only [list.sizeOf_spec]
    omega
  | tuple items =>
    have : sizeOf a < sizeOf items := List.sizeOf_lt_of_mem h
    simp only [tuple.sizeOf_spec]
    omega
  | map entries =>
    obtain ⟨⟨k, v⟩, he, rfl⟩ := List.mem_map.1 h
    have := List.sizeOf_lt_of_mem he
    simp only [map.sizeOf_spec, Prod.mk.sizeOf_spec] at *
    omega
  | _ => cases h

/-- Two containers of one kind and their parts: lists or tuples of one length, or tables with the same
keys. All of them but lists are sealed: what is in them has to be the same. -/
inductive Frame : Value → Value → Bool → Prop
  | list {as bs : List Value} (length : as.length = bs.length) : Frame (list as) (list bs) false
  | tuple {as bs : List Value} (length : as.length = bs.length) : Frame (tuple as) (tuple bs) true
  | map {t u : Table Value} (keys : Table.keys t = Table.keys u) : Frame (map t) (map u) true

/-- A relation holds between the parts that stand at the same places. -/
def Partwise (R : Value → Value → Prop) (v w : Value) : Prop :=
  ∀ (i : ℕ) (a b : Value), v.parts[i]? = some a → w.parts[i]? = some b → R a b

/-- To show something of all pairs of values, show it of two containers of one kind from what holds of
their parts, and of all other pairs. -/
theorem pair_induction {P : Value → Value → Prop}
    (framed : ∀ {v w : Value} {closed : Bool}, Frame v w closed → Partwise P v w → P v w)
    (plain : ∀ {v w : Value}, (∀ closed, ¬ Frame v w closed) → P v w) (v w : Value) : P v w := by
  by_cases h : ∃ closed, Frame v w closed
  · obtain ⟨closed, frame⟩ := h
    exact framed frame fun i a b ha _ =>
      have := sizeOf_lt_of_mem_parts (List.mem_of_getElem? ha)
      pair_induction framed plain a b
  · exact plain (not_exists.1 h)
termination_by sizeOf v

/-! ## 2. Likeness -/

/-- What a number counts. -/
def magnitude? : Value → Option Extended
  | int i => some (.of i.toInt)
  | float x => value? x
  | _ => none

/-- Two values are equal in structure, and in it at every depth numbers by what they count and other
scalars as they are. -/
inductive Alike : Value → Value → Prop
  | undefined : Alike undefined undefined
  | null : Alike null null
  | env : Alike env env
  | bool (b : Bool) : Alike (bool b) (bool b)
  | str (s : String) : Alike (str s) (str s)
  | number {v w : Value} {q : Extended} (left : v.magnitude? = some q) (right : w.magnitude? = some q) :
      Alike v w
  | parts {v w : Value} {closed : Bool} (frame : Frame v w closed)
      (alike : Partwise Alike v w) : Alike v w

/-- An integer and a float. -/
def Mixed : Value → Value → Prop
  | int _, float _ => True
  | float _, int _ => True
  | _, _ => False

/-- Two values stand at the same place of two values, within a table or a tuple or outside of them. -/
inductive Faces : Value → Value → Bool → Value → Value → Prop
  | here (v w : Value) : Faces v w false v w
  | part {v w a b x y : Value} {outer inner : Bool} {i : Nat} (frame : Frame v w outer)
      (left : v.parts[i]? = some a) (right : w.parts[i]? = some b) (faces : Faces a b inner x y) :
      Faces v w (outer || inner) x y

/-- Whatever stands at one place of two values, within a table or a tuple or not, is so related. -/
def Everywhere (R : Bool → Value → Value → Prop) (v w : Value) : Prop :=
  ∀ inside x y, Faces v w inside x y → R inside x y

/-- Nowhere within a table or a tuple does an integer face a float. -/
def UnmixedInside : Value → Value → Prop :=
  Everywhere fun inside x y => inside = true → ¬ Mixed x y

/-- Wherever an integer faces a float outside of tables and tuples, the two count the same. -/
def ExactOutside : Value → Value → Prop :=
  Everywhere fun inside x y => inside = false → Mixed x y → Alike x y

/-! ## 3. Containers part by part -/

section Containers

variable {v w x y : Value} {closed inside : Bool} {R S : Value → Value → Prop}

/-- A relation between parts may be replaced by one that is equivalent on them. -/
theorem Partwise.congr (h : Partwise (fun a b => R a b ↔ S a b) v w) :
    Partwise R v w ↔ Partwise S v w := by
  constructor
  · exact fun all i a b ha hb => (h i a b ha hb).1 (all i a b ha hb)
  · exact fun all i a b ha hb => (h i a b ha hb).2 (all i a b ha hb)

/-- Two relations hold between parts together or each for itself. -/
theorem partwise_and : Partwise R v w ∧ Partwise S v w ↔ Partwise (fun a b => R a b ∧ S a b) v w := by
  constructor
  · exact fun h i a b ha hb => ⟨h.1 i a b ha hb, h.2 i a b ha hb⟩
  · exact fun h => ⟨fun i a b ha hb => (h i a b ha hb).1, fun i a b ha hb => (h i a b ha hb).2⟩

/-- Lists of one length are related if what stands at the same places in them is. -/
theorem forall₂_iff_getElem? {as bs : List Value} (length : as.length = bs.length) :
    List.Forall₂ R as bs ↔ ∀ (i : ℕ) (a b : Value), as[i]? = some a → bs[i]? = some b → R a b := by
  rw [List.forall₂_iff_get]
  constructor
  · rintro ⟨-, all⟩ i a b ha hb
    obtain ⟨hi, rfl⟩ := List.getElem?_eq_some_iff.1 ha
    obtain ⟨hj, rfl⟩ := List.getElem?_eq_some_iff.1 hb
    exact all i hi hj
  · exact fun all => ⟨length, fun i hi hj =>
      all i _ _ (List.getElem?_eq_getElem hi) (List.getElem?_eq_getElem hj)⟩

/-- Lists are the same if their items are. -/
theorem sameItems_iff (as bs : List Value) :
    sameItems as bs = true ↔ List.Forall₂ (same · · = true) as bs := by
  induction as generalizing bs with
  | nil => cases bs <;> simp [sameItems]
  | cons a as ih => cases bs <;> simp [sameItems, ih]

/-- Lists are equal if their items are. -/
theorem equalItems_iff (as bs : List Value) :
    equalItems as bs = true ↔ List.Forall₂ (equal · · = true) as bs := by
  induction as generalizing bs with
  | nil => cases bs <;> simp [equalItems]
  | cons a as ih => cases bs <;> simp [equalItems, ih]

/-- Tables are the same if they have the same keys and under them the same values. -/
theorem sameEntries_iff (t u : Table Value) :
    sameEntries t u = true ↔ Table.keys t = Table.keys u ∧
      List.Forall₂ (same · · = true) (t.map Prod.snd) (u.map Prod.snd) := by
  induction t generalizing u with
  | nil => cases u <;> simp [sameEntries, Table.keys]
  | cons e t ih =>
    cases u with
    | nil => simp [sameEntries, Table.keys]
    | cons f u =>
      simp only [Table.keys] at ih
      simp [sameEntries, Table.keys, ih]
      tauto

/-- Tables with the same keys have equally many values. -/
theorem length_values_eq {t u : Table Value} (keys : Table.keys t = Table.keys u) :
    (t.map Prod.snd).length = (u.map Prod.snd).length := by
  simpa [Table.keys] using congrArg List.length keys

/-- Two containers of one kind are the same if their parts are. -/
theorem same_of_frame (frame : Frame v w closed) :
    same v w = true ↔ Partwise (same · · = true) v w := by
  cases frame with
  | list length =>
    rw [same, sameItems_iff, forall₂_iff_getElem? length]
    rfl
  | tuple length =>
    rw [same, sameItems_iff, forall₂_iff_getElem? length]
    rfl
  | map keys =>
    rw [same, sameEntries_iff, and_iff_right keys, forall₂_iff_getElem? (length_values_eq keys)]
    rfl

/-- Two containers of one kind are equal if their parts are, and sealed ones if their parts are the
same. -/
theorem equal_of_frame (frame : Frame v w closed) :
    equal v w = true ↔
      Partwise (fun a b => (if closed then same a b else equal a b) = true) v w := by
  cases frame with
  | list length =>
    rw [equal, equalItems_iff, forall₂_iff_getElem? length]
    rfl
  | tuple length =>
    rw [equal]
    · exact same_of_frame (.tuple length)
    all_goals simp
  | map keys =>
    rw [equal]
    · exact same_of_frame (.map keys)
    all_goals simp

end Containers

/-! ## 4. Scalars -/

section Scalars

variable {v w : Value}

/-- Where there are no parts to look at, being the same is being alike, unless an integer faces a
float. -/
theorem same_iff_of_no_frame (none : ∀ closed, ¬ Frame v w closed) :
    same v w = true ↔ Alike v w ∧ ¬ Mixed v w := by
  constructor
  · intro h
    cases v <;> cases w <;> simp only [same, Bool.false_eq_true] at h
    case list.list as bs => exact absurd (.list ((sameItems_iff as bs).1 h).length_eq) (none _)
    case tuple.tuple as bs => exact absurd (.tuple ((sameItems_iff as bs).1 h).length_eq) (none _)
    case map.map t u => exact absurd (.map ((sameEntries_iff t u).1 h).1) (none _)
    case undefined.undefined => exact ⟨.undefined, id⟩
    case null.null => exact ⟨.null, id⟩
    case env.env => exact ⟨.env, id⟩
    case bool.bool a b =>
      rw [beq_iff_eq.1 h]
      exact ⟨.bool b, id⟩
    case str.str a b =>
      rw [beq_iff_eq.1 h]
      exact ⟨.str b, id⟩
    case int.int a b =>
      rw [beq_iff_eq.1 h]
      exact ⟨.number rfl rfl, id⟩
    case float.float a b =>
      obtain ⟨q, ha, hb⟩ := beq_iff_value.1 h
      exact ⟨.number ha hb, id⟩
  · rintro ⟨alike, mixed⟩
    cases alike with
    | undefined => rfl
    | null => rfl
    | env => rfl
    | bool b => exact beq_self_eq_true b
    | str s => exact beq_self_eq_true s
    | number left right =>
      cases v <;> cases w <;> simp only [magnitude?, reduceCtorEq] at left right
      case int.int a b =>
        rw [← left, Option.some.injEq, Extended.of_inj, Int.cast_inj,
          Int64.toInt_inj] at right
        rw [right, same, beq_self_eq_true]
      case float.float a b => exact beq_iff_value.2 ⟨_, left, right⟩
      -- An integer and a float, which are alike but not the same.
      all_goals exact absurd trivial mixed
    | parts frame alike => exact absurd frame (none _)

/-- Likewise equality is sameness, unless an integer faces a float. -/
theorem equal_eq_same_of_no_frame (none : ∀ closed, ¬ Frame v w closed) (mixed : ¬ Mixed v w) :
    equal v w = same v w := by
  cases v <;> cases w
  case list.list as bs =>
    have hequal : ¬ equalItems as bs = true := fun h =>
      none _ (.list ((equalItems_iff as bs).1 h).length_eq)
    have hsame : ¬ sameItems as bs = true := fun h =>
      none _ (.list ((sameItems_iff as bs).1 h).length_eq)
    rw [equal, same, Bool.eq_false_iff.2 hequal, Bool.eq_false_iff.2 hsame]
  case int.float => exact absurd trivial mixed
  case float.int => exact absurd trivial mixed
  all_goals
    rw [equal]
    all_goals simp

/-- An integer and a float that counts as much are equal. -/
theorem equal_of_mixed (mixed : Mixed v w) (alike : Alike v w) : equal v w = true := by
  have hequal : ∀ {i : Int64} {x : Float}, value? x = some (.of i.toInt) →
      (Decimal.ofInt64 i == x) = true := by
    intro i x hx
    rw [beq_iff_value, value?_ofInt64, rounded_of_value? hx, hx]
    exact ⟨_, rfl, rfl⟩
  cases v <;> cases w <;> try exact mixed.elim
  case int.float i x =>
    cases alike with
    | number left right =>
      rw [equal]
      exact hequal (right.trans left.symm)
    | parts frame => cases frame
  case float.int x i =>
    cases alike with
    | number left right =>
      rw [equal]
      exact hequal (left.trans right.symm)
    | parts frame => cases frame

end Scalars

/-! ## 5. Equality and likeness -/

section Likeness

variable {v w : Value} {closed : Bool} {R : Bool → Value → Value → Prop}

/-- Whether two containers are sealed is seen from either of them. -/
theorem Frame.unique {closed' : Bool} (h : Frame v w closed) (h' : Frame v w closed') :
    closed = closed' := by
  cases h <;> cases h' <;> rfl

/-- A container is no number. -/
theorem not_mixed_of_frame (frame : Frame v w closed) : ¬ Mixed v w := by
  cases frame <;> exact id

/-- Two containers of one kind are alike just when their parts are. -/
theorem alike_of_frame (frame : Frame v w closed) : Alike v w ↔ Partwise Alike v w := by
  constructor
  · intro alike
    cases alike with
    | parts _ alike => exact alike
    | number left right => cases frame <;> cases left
    | _ => cases frame
  · exact .parts frame

/-- Something holds everywhere in two containers if it holds of them and everywhere in their parts. Within
the parts it has to be taken as seen from outside: what is inside of a part is inside of the whole, and all
of a sealed container is. -/
theorem everywhere_of_frame (frame : Frame v w closed) :
    Everywhere R v w ↔
      R false v w ∧ Partwise (Everywhere fun inside => R (closed || inside)) v w := by
  constructor
  · intro all
    exact ⟨all _ _ _ (.here v w), fun i a b ha hb inside x y faces =>
      all _ _ _ (.part frame ha hb faces)⟩
  · rintro ⟨here, parts⟩ inside x y faces
    cases faces with
    | here => exact here
    | part frame' ha hb faces =>
      rw [frame'.unique frame]
      exact parts _ _ _ ha hb _ _ _ faces

/-- Two values that are no containers of one kind have no places but their own. -/
theorem everywhere_of_no_frame (none : ∀ closed, ¬ Frame v w closed) :
    Everywhere R v w ↔ R false v w := by
  constructor
  · exact fun all => all _ _ _ (.here v w)
  · intro here inside x y faces
    cases faces with
    | here => exact here
    | part frame => exact absurd frame (none _)

/-- **Sameness is likeness without integers that face floats.** Both compare values part by part, so it is
enough to compare them where there are no parts. -/
theorem same_iff (v w : Value) :
    same v w = true ↔ Alike v w ∧ Everywhere (fun _ x y => ¬ Mixed x y) v w := by
  induction v, w using pair_induction with
  | framed frame ih =>
    rw [same_of_frame frame, alike_of_frame frame, everywhere_of_frame frame,
      and_iff_right (not_mixed_of_frame frame), partwise_and]
    exact ih.congr
  | plain none => rw [same_iff_of_no_frame none, everywhere_of_no_frame none]

/-- Values that are alike are equal exactly if no integer faces a float in a table or a tuple. -/
theorem equal_iff_of_alike (alike : Alike v w) : equal v w = true ↔ UnmixedInside v w := by
  unfold UnmixedInside
  induction v, w using pair_induction with
  | @framed v w closed frame ih =>
    rw [equal_of_frame frame, everywhere_of_frame frame, and_iff_right (by simp)]
    rw [alike_of_frame frame] at alike
    refine Partwise.congr fun i a b ha hb => ?_
    have alike := alike i a b ha hb
    cases closed with
    | false => exact ih i a b ha hb alike
    | true =>
      -- From here on it is sameness.
      show same a b = true ↔ _
      rw [same_iff, and_iff_right alike]
      simp
  | @plain v w none =>
    rw [everywhere_of_no_frame none]
    by_cases mixed : Mixed v w
    · simp [equal_of_mixed mixed alike]
    · rw [equal_eq_same_of_no_frame none mixed, same_iff_of_no_frame none]
      simp [alike, mixed]

/-- Values that are equal are alike exactly if an integer that faces a float outside of tables and tuples
always counts as much. -/
theorem alike_iff_of_equal (equals : equal v w = true) : Alike v w ↔ ExactOutside v w := by
  unfold ExactOutside
  induction v, w using pair_induction with
  | @framed v w closed frame ih =>
    rw [alike_of_frame frame, everywhere_of_frame frame,
      and_iff_right fun _ mixed => absurd mixed (not_mixed_of_frame frame)]
    rw [equal_of_frame frame] at equals
    refine Partwise.congr fun i a b ha hb => ?_
    have equals := equals i a b ha hb
    cases closed with
    | false => exact ih i a b ha hb equals
    | true =>
      rw [if_pos rfl, same_iff] at equals
      exact iff_of_true equals.1 fun _ _ _ _ outside => by cases outside
  | @plain v w none =>
    rw [everywhere_of_no_frame none]
    by_cases mixed : Mixed v w
    · simp [mixed]
    · rw [equal_eq_same_of_no_frame none mixed, same_iff_of_no_frame none] at equals
      simp [equals.1, mixed]

theorem holds_eq_iff (v w : Value) : Holds .eq v w ↔ equal v w = true := by
  simp [Holds, binary]

theorem holds_ne_iff (v w : Value) : Holds .ne v w ↔ ¬ Holds .eq v w := by
  simp [Holds, binary]

/-- **Equality is likeness, but for integers that face floats.** Among values that are alike, those are
equal where no integer faces a float within a table or a tuple; among values that are equal, those are
alike where every integer that faces a float outside of tables and tuples counts as much as the float.
What is not equal is unequal. -/
theorem equality_of_values (v w : Value) :
    (UnmixedInside v w → ExactOutside v w → (Holds .eq v w ↔ Alike v w)) ∧
      (Alike v w → (Holds .eq v w ↔ UnmixedInside v w)) ∧
      (Holds .eq v w → (Alike v w ↔ ExactOutside v w)) ∧
      (Holds .ne v w ↔ ¬ Holds .eq v w) := by
  rw [holds_ne_iff, holds_eq_iff]
  refine ⟨fun unmixed exactly => ⟨?_, ?_⟩, equal_iff_of_alike, alike_iff_of_equal, Iff.rfl⟩
  · exact fun equals => (alike_iff_of_equal equals).2 exactly
  · exact fun alike => (equal_iff_of_alike alike).2 unmixed

theorem alike_one : Alike (int 1) (float 1.0) := by
  have hone : (1.0 : Float) = Decimal.ofInt64 1 := by decide +kernel
  refine .number rfl ?_
  rw [magnitude?, hone, value?_ofInt64, rounded_of_lt (by decide)]

/-- One as an integer and as a float: equal in itself, not equal in a table. And a large integer equals a
float that counts one less. -/
theorem equality_of_values_one :
    Holds .eq (int 1) (float 1.0) ∧
      (Alike (map [("a", int 1)]) (map [("a", float 1.0)]) ∧
        ¬ Holds .eq (map [("a", int 1)]) (map [("a", float 1.0)])) ∧
      Holds .eq (int 9007199254740993) (float 9007199254740992.0) ∧
        ¬ Alike (int 9007199254740993) (float 9007199254740992.0) := by
  have hnone : ∀ {i : Int64} {x : Float} (closed : Bool), ¬ Frame (int i) (float x) closed :=
    fun _ frame => by cases frame
  have hframe : Frame (map [("a", int 1)]) (map [("a", float 1.0)]) true := .map rfl
  have halike : Alike (map [("a", int 1)]) (map [("a", float 1.0)]) := by
    refine .parts hframe fun i a b ha hb => ?_
    cases i with
    | zero =>
      cases ha
      cases hb
      exact alike_one
    | succ i => cases ha
  have hmixed : ¬ UnmixedInside (map [("a", int 1)]) (map [("a", float 1.0)]) := fun unmixed =>
    unmixed _ _ _ (.part hframe (i := 0) rfl rfl (.here _ _)) rfl trivial
  have hequal : Holds .eq (int 9007199254740993) (float 9007199254740992.0) := by
    rw [holds_eq_iff]
    decide +kernel
  -- The large integer is not a double, and the one next to it is what it is rounded to.
  have hinexact : ¬ ExactOutside (int 9007199254740993) (float 9007199254740992.0) := by
    have hfloat : (9007199254740992.0 : Float) = Decimal.ofInt64 9007199254740992 := by decide +kernel
    have hrounded : rounded (9007199254740992 : Int64).toInt = 9007199254740992 := by decide +kernel
    intro exactly
    cases exactly _ _ _ (.here _ _) rfl trivial with
    | number left right =>
      rw [magnitude?, hfloat, value?_ofInt64, hrounded, ← left, magnitude?, Option.some.injEq,
        Extended.of_inj, Int.cast_inj] at right
      exact absurd right (by decide)
    | parts frame => exact hnone _ frame
  refine ⟨?_, ⟨halike, ?_⟩, hequal, ?_⟩
  · refine ((equality_of_values _ _).1 ?_ ?_).2 alike_one
    · exact (everywhere_of_no_frame hnone).2 fun inside => by cases inside
    · exact (everywhere_of_no_frame hnone).2 fun _ _ => alike_one
  · exact fun equals => hmixed (((equality_of_values _ _).2.1 halike).1 equals)
  · exact fun alike => hinexact (((equality_of_values _ _).2.2.1 hequal).1 alike)

end Likeness

/-! ## 6. Tables by key -/

section Tables

variable {t u : Table Value} {R : Value → Value → Prop}

/-- In a sorted table a key that does not come after the first one is not found behind it. -/
theorem find?_tail {entry : String × Value} {k : String} (sorted : Table.IsSorted (entry :: t))
    (h : ¬ entry.1 < k) : Table.find? t k = none := by
  cases found : Table.find? t k with
  | none => rfl
  | some v =>
    have mem : k ∈ Table.keys t := List.mem_map.2 ⟨_, Table.mem_of_find? found, rfl⟩
    exact absurd (List.rel_of_pairwise_cons sorted mem) h

/-- Tables that are related key by key begin with the same key. -/
theorem head_key_eq {k k' : String} {a b : Value} (ht : Table.IsSorted ((k, a) :: t))
    (hu : Table.IsSorted ((k', b) :: u))
    (all : ∀ key, Option.Rel R (Table.find? ((k, a) :: t) key) (Table.find? ((k', b) :: u) key)) :
    k = k' := by
  simp only [Table.find?] at all
  by_contra hne
  -- The smaller one of the two would be in one table only.
  by_cases hlt : k' < k
  · have := all k'
    rw [if_neg (Ne.symm hne), if_pos rfl, find?_tail ht (String.lt_asymm hlt)] at this
    cases this
  · have := all k
    rw [if_pos rfl, if_neg hne, find?_tail hu hlt] at this
    cases this

/-- A key that is only in one of two tables relates them by no relation of values. -/
theorem not_rel_cons {entry : String × Value} :
    ¬ Option.Rel R none (Table.find? (entry :: t) entry.1) ∧
      ¬ Option.Rel R (Table.find? (entry :: t) entry.1) none := by
  rw [Table.find?, if_pos rfl]
  constructor
  · intro h
    cases h
  · intro h
    cases h

/-- Entry by entry is key by key. -/
theorem forall₂_iff_find? (ht : t.IsSorted) (hu : u.IsSorted) :
    Table.keys t = Table.keys u ∧ List.Forall₂ R (t.map Prod.snd) (u.map Prod.snd) ↔
      ∀ k, Option.Rel R (t.find? k) (u.find? k) := by
  induction t generalizing u with
  | nil =>
    cases u with
    | nil => exact iff_of_true ⟨rfl, .nil⟩ fun _ => .none
    | cons f u => exact iff_of_false (fun h => nomatch h.1) fun all => not_rel_cons.1 (all f.1)
  | cons e t ih =>
    cases u with
    | nil => exact iff_of_false (fun h => nomatch h.1) fun all => not_rel_cons.2 (all e.1)
    | cons f u =>
      obtain ⟨k, a⟩ := e
      obtain ⟨k', b⟩ := f
      have ih := ih (List.Pairwise.of_cons ht) (u := u) (List.Pairwise.of_cons hu)
      have hkeys := head_key_eq (R := R) ht hu
      simp only [Table.keys, List.map_cons, List.cons.injEq, List.forall₂_cons, Table.find?] at *
      constructor
      · rintro ⟨⟨rfl, keys⟩, related, rest⟩ key
        by_cases hkey : key = k
        · rw [if_pos hkey, if_pos hkey]
          exact .some related
        · rw [if_neg hkey, if_neg hkey]
          exact ih.1 ⟨keys, rest⟩ key
      · intro all
        obtain rfl := hkeys all
        have related := all k
        rw [if_pos rfl, if_pos rfl, Option.rel_some_some] at related
        -- The tails have no entry for the first key, since the keys are in strict order.
        have tails : ∀ key, Option.Rel R (Table.find? t key) (Table.find? u key) := by
          intro key
          by_cases hkey : key = k
          · rw [hkey, find?_tail ht (String.lt_irrefl k), find?_tail hu (String.lt_irrefl k)]
            exact .none
          · have := all key
            rwa [if_neg hkey, if_neg hkey] at this
        exact ⟨⟨rfl, (ih.2 tails).1⟩, related, (ih.2 tails).2⟩

/-- Two tables are alike if what they have under each key is. -/
theorem alike_map_iff (ht : t.IsSorted) (hu : u.IsSorted) :
    Alike (map t) (map u) ↔ ∀ k, Option.Rel Alike (t.find? k) (u.find? k) := by
  rw [← forall₂_iff_find? ht hu]
  constructor
  · intro alike
    cases alike with
    | number left => cases left
    | parts frame alike =>
      cases frame with
      | map keys => exact ⟨keys, (forall₂_iff_getElem? (length_values_eq keys)).2 alike⟩
  · exact fun h => .parts (.map h.1) ((forall₂_iff_getElem? h.2.length_eq).1 h.2)

/-- Two tables are equal if what they have under each key is the same. -/
theorem holds_eq_map_iff (ht : t.IsSorted) (hu : u.IsSorted) :
    Holds .eq (map t) (map u) ↔ ∀ k, Option.Rel (same · · = true) (t.find? k) (u.find? k) := by
  rw [← forall₂_iff_find? ht hu, ← sameEntries_iff, holds_eq_iff, equal]
  · rw [same]
  all_goals simp

end Tables

end BlockConfig.Value
