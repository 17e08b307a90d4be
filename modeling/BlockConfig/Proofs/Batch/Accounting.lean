import BlockConfig.Batch
import BlockConfig.Proofs.Inclusion.Atomic
import Mathlib.Data.List.Forall2
import Mathlib.Data.List.Sort

/-!
Every failure is accounted for.

Gathering looks at all outcomes and fails if one of them is no value. What it reports then is decided
by places: the places at which items failed of themselves, each with its error and in order, and the
places of items that were not come to, which are counted (`AccountsFor`). There is exactly one such
list of errors for given outcomes (`AccountsFor.unique`), and it is empty exactly if everything
succeeded (`AccountsFor.eq_nil_iff`).

Documents and expressions are gathered in the same way, in one pass that notes what has been made of
the values, the errors, and how many items were not come to (`Tally`). Taking one more outcome keeps
the notes faithful (`Tally.Faithful.taking`), so they are when the pass is through
(`Tally.Faithful.foldl_taking`). What is made of the values is all that the two do differently: a list
of them, or one table of all entries, in which the last entry with a key counts (`LaterWins`).
-/

set_option autoImplicit false

namespace BlockConfig

/-! ## 1. The last entry with a key -/

namespace Table

variable {α : Type} {k : String} {v : α}

/-- Of the entries with the key `k` the last one has the value `v`. -/
def IsLast (entries : List (String × α)) (k : String) (v : α) : Prop :=
  ∃ front back, entries = front ++ (k, v) :: back ∧ k ∉ keys back

/-- The last entry of a key is found behind the first entry, unless the key does not occur there again. -/
theorem isLast_cons_iff {entry : String × α} {entries : List (String × α)} :
    IsLast (entry :: entries) k v ↔
      IsLast entries k v ∨ entry = (k, v) ∧ k ∉ keys entries := by
  constructor
  · rintro ⟨front, back, split, last⟩
    rcases List.cons_eq_append_iff.1 split with ⟨rfl, hback⟩ | ⟨rest, rfl, hrest⟩
    · obtain ⟨rfl, rfl⟩ := List.cons.inj hback
      exact .inr ⟨rfl, last⟩
    · exact .inl ⟨rest, back, hrest, last⟩
  · rintro (⟨front, back, rfl, last⟩ | ⟨rfl, last⟩)
    · exact ⟨entry :: front, back, rfl, last⟩
    · exact ⟨[], entries, rfl, last⟩

/-- With entries put on top of it, a table has the last value of each of their keys. -/
theorem find?_union_eq_some_iff {t : Table α} {entries : List (String × α)} :
    find? (union t entries) k = some v ↔
      IsLast entries k v ∨ find? t k = some v ∧ k ∉ keys entries := by
  induction entries generalizing t with
  | nil =>
    have never : ¬ IsLast [] k v := by
      rintro ⟨front, back, split, -⟩
      exact List.append_ne_nil_of_right_ne_nil front (List.cons_ne_nil _ _) split.symm
    simp [union, keys, never]
  | cons entry entries ih =>
    obtain ⟨key, value⟩ := entry
    have onTop : union t ((key, value) :: entries) = union (insert t key value) entries := rfl
    rw [onTop, ih, isLast_cons_iff, find?_insert, or_assoc]
    refine or_congr_right ?_
    -- What was there before shows through unless the new entry has the key.
    by_cases same : k = key
    · subst same
      simp [keys, eq_comm]
    · simp [keys, same, Ne.symm same]

/-- In a sorted table the entries are what its keys are found to have. -/
theorem mem_iff_find? {t : Table α} (sorted : t.IsSorted) : (k, v) ∈ t ↔ find? t k = some v := by
  refine ⟨fun hmem => ?_, mem_of_find?⟩
  induction t with
  | nil => exact absurd hmem List.not_mem_nil
  | cons entry t ih =>
    obtain ⟨first, rest⟩ := List.pairwise_cons.1 sorted
    rcases List.mem_cons.1 hmem with rfl | hmem
    · rw [find?, if_pos rfl]
    · have later : entry.1 < k := first k (List.mem_map.2 ⟨_, hmem, rfl⟩)
      rw [find?, if_neg (String.ne_of_lt later).symm]
      exact ih rest hmem

/-- Tables are determined by what is found in them. -/
theorem eq_of_find? {t u : Table α} (ht : t.IsSorted) (hu : u.IsSorted)
    (same : ∀ k, find? t k = find? u k) : t = u := by
  have irrefl : Std.Irrefl fun a b : String × α => a.1 < b.1 := ⟨fun a => String.lt_irrefl a.1⟩
  have antisymm : Std.Antisymm fun a b : String × α => a.1 < b.1 :=
    ⟨fun _ _ hab hba => absurd hba (String.lt_asymm hab)⟩
  refine List.Pairwise.eq_of_mem_iff (List.pairwise_map.1 ht) (List.pairwise_map.1 hu) ?_
  rintro ⟨k, v⟩
  rw [mem_iff_find? ht, mem_iff_find? hu, same]

end Table

namespace Batch

variable {β γ : Type}

/-- A table with all of the entries, in which the last one with a key counts. -/
structure LaterWins (entries : List (String × Value)) (merged : Table Value) : Prop where
  sorted : merged.IsSorted
  find?_iff : ∀ k v, merged.find? k = some v ↔ Table.IsLast entries k v

/-- Uniting tables one after the other makes the table in which later entries win, and there is no
other one. -/
theorem laterWins_iff (tables : List (Table Value)) (merged : Table Value) :
    LaterWins tables.flatten merged ↔ merged = tables.foldl Table.union [] := by
  have flat : tables.foldl Table.union [] = Table.union [] tables.flatten :=
    List.foldl_flatten.symm
  have sorted : (Table.union [] tables.flatten : Table Value).IsSorted :=
    Table.isSorted_union (t := []) List.Pairwise.nil _
  have found : ∀ k v, Table.find? (Table.union [] tables.flatten) k = some v ↔
      Table.IsLast tables.flatten k v := by
    intro k v
    rw [Table.find?_union_eq_some_iff, Table.find?]
    simp
  rw [flat]
  constructor
  -- Both tables are in order, so that it is enough to look up every key.
  · intro h
    refine Table.eq_of_find? h.sorted sorted fun k => Option.ext fun v => ?_
    rw [h.find?_iff, found]
  · rintro rfl
    exact ⟨sorted, found⟩

/-! ## 2. What has to be reported -/

/-- An item that the pool came to and that gave no value. -/
def Failed (o : Outcome β) : Prop :=
  ∃ e, e ≠ .notDispatched ∧ o = .error e

/-- An item that the pool did not come to. -/
def Missed (o : Outcome β) : Prop :=
  o = .error .notDispatched

/-- The places of all outcomes of a kind, each once and in order. -/
structure Places (kind : Outcome β → Prop) (outcomes : List (Outcome β)) (places : List Nat) :
    Prop where
  ascending : places.Pairwise (· < ·)
  mem_iff : ∀ i, i ∈ places ↔ ∃ o, outcomes[i]? = some o ∧ kind o

/-- The item at a place gave an error. -/
def FailsWith (outcomes : List (Outcome β)) (i : Nat) (e : RunError) : Prop :=
  outcomes[i]? = some (.error e)

/-- Errors that account for outcomes: those of all items that failed of themselves, each once and in
the order of the items, and behind them how many items were not come to, if there are any. -/
def AccountsFor (outcomes : List (Outcome β)) (errors : List RunError) : Prop :=
  ∃ failed missed failures,
    Places Failed outcomes failed ∧ Places Missed outcomes missed ∧
    List.Forall₂ (FailsWith outcomes) failed failures ∧
    errors = if missed = [] then failures else failures ++ [.cancelled missed.length]

/-- What a front end has to make of outcomes: `made` relates the values of all items, in order, to
what is to become of them. -/
structure Reports (made : List β → γ → Prop) (outcomes : List (Outcome β))
    (result : Except Errors γ) : Prop where
  succeeds_iff : (∃ c, result = .ok c) ↔ ∀ o ∈ outcomes, ∃ b, o = .ok b
  ok_iff : ∀ c, result = .ok c ↔ ∃ values, outcomes = values.map .ok ∧ made values c
  error_iff : ∀ errors, result = .error ⟨errors⟩ ↔ errors ≠ [] ∧ AccountsFor outcomes errors

variable {outcomes : List (Outcome β)} {o : Outcome β} {kind : Outcome β → Prop}
  {places : List Nat} {errors : List RunError}

/-- An outcome is a value, says that the item was not come to, or is an error of the item. -/
theorem value_or_missed_or_failed (o : Outcome β) : (∃ b, o = .ok b) ∨ Missed o ∨ Failed o := by
  cases o with
  | ok b => exact .inl ⟨b, rfl⟩
  | error e =>
    by_cases he : e = .notDispatched
    · exact .inr (.inl (congrArg Except.error he))
    · exact .inr (.inr ⟨e, he, rfl⟩)

/-- An outcome stands at its place still when another one is put behind it. -/
theorem getElem?_snoc_iff {i : Nat} {o' : Outcome β} :
    (outcomes ++ [o])[i]? = some o' ↔
      outcomes[i]? = some o' ∨ i = outcomes.length ∧ o = o' := by
  rcases Nat.lt_trichotomy i outcomes.length with h | rfl | h
  · rw [List.getElem?_append_left h]
    simp [Nat.ne_of_lt h]
  · simp
  · have beyond : (outcomes ++ [o]).length ≤ i := by
      rw [List.length_append]
      exact h
    rw [List.getElem?_eq_none beyond, List.getElem?_eq_none (Nat.le_of_lt h)]
    simp [Nat.ne_of_gt h]

/-- The error at a place is the same when one more outcome is there. -/
theorem failsWith_snoc (h : List.Forall₂ (FailsWith outcomes) places errors) (o : Outcome β) :
    List.Forall₂ (FailsWith (outcomes ++ [o])) places errors :=
  h.imp fun _ _ fails => getElem?_snoc_iff.2 (.inl fails)

theorem not_failed_ok (b : β) : ¬ Failed (.ok b : Outcome β) := by
  rintro ⟨e, -, ⟨⟩⟩

theorem not_failed_notDispatched : ¬ Failed (.error .notDispatched : Outcome β) := by
  rintro ⟨e, he, same⟩
  exact he (Except.error.inj same).symm

theorem not_missed_ok (b : β) : ¬ Missed (.ok b : Outcome β) := by
  rintro ⟨⟩

/-- An item that failed for another reason was come to. -/
theorem not_missed_error {e : RunError} (he : e ≠ .notDispatched) :
    ¬ Missed (.error e : Outcome β) :=
  fun same => he (Except.error.inj same)

namespace Places

theorem nil : Places kind ([] : List (Outcome β)) [] :=
  ⟨List.Pairwise.nil, by simp⟩

/-- The places of a kind are places of outcomes. -/
theorem lt_length (h : Places kind outcomes places) {i : Nat} (hi : i ∈ places) :
    i < outcomes.length := by
  obtain ⟨o, ho, -⟩ := (h.mem_iff i).1 hi
  exact (List.getElem?_eq_some_iff.1 ho).1

/-- One more outcome of the kind. -/
theorem snoc (h : Places kind outcomes places) (ho : kind o) :
    Places kind (outcomes ++ [o]) (places ++ [outcomes.length]) := by
  refine ⟨List.pairwise_append.2 ⟨h.ascending, List.pairwise_singleton _ _, ?_⟩, fun i => ?_⟩
  · intro i hi j hj
    obtain rfl := List.mem_singleton.1 hj
    exact h.lt_length hi
  · simp only [List.mem_append, List.mem_singleton, h.mem_iff, getElem?_snoc_iff, or_and_right,
      exists_or]
    refine or_congr_right ⟨fun hi => ⟨o, ⟨hi, rfl⟩, ho⟩, ?_⟩
    rintro ⟨_, ⟨hi, -⟩, -⟩
    exact hi

/-- One more outcome of another kind. -/
theorem snoc_of_not (h : Places kind outcomes places) (ho : ¬ kind o) :
    Places kind (outcomes ++ [o]) places := by
  refine ⟨h.ascending, fun i => ?_⟩
  simp only [h.mem_iff, getElem?_snoc_iff, or_and_right, exists_or]
  refine (or_iff_left ?_).symm
  rintro ⟨_, ⟨-, rfl⟩, hkind⟩
  exact ho hkind

/-- There is one list of all places in ascending order. -/
theorem unique {places' : List Nat} (h : Places kind outcomes places)
    (h' : Places kind outcomes places') : places = places' :=
  h.ascending.eq_of_mem_iff h'.ascending fun i => (h.mem_iff i).trans (h'.mem_iff i).symm

/-- There are no places of a kind that no outcome has. -/
theorem eq_nil_iff (h : Places kind outcomes places) :
    places = [] ↔ ∀ o ∈ outcomes, ¬ kind o := by
  simp only [List.eq_nil_iff_forall_not_mem, h.mem_iff, List.mem_iff_getElem?, not_exists, not_and]
  exact ⟨fun none o ⟨i, hi⟩ => none i o hi, fun none i o hi => none o ⟨i, hi⟩⟩

end Places

namespace AccountsFor

/-- **Outcomes can be accounted for in one way only.** The failed and the missed places are lists in
ascending order, and the error at a failed place is the one that its outcome has. -/
theorem unique {errors' : List RunError} (h : AccountsFor outcomes errors)
    (h' : AccountsFor outcomes errors') : errors = errors' := by
  obtain ⟨failed, missed, failures, hfailed, hmissed, each, rfl⟩ := h
  obtain ⟨failed', missed', failures', hfailed', hmissed', each', rfl⟩ := h'
  obtain rfl := hfailed.unique hfailed'
  obtain rfl := hmissed.unique hmissed'
  have one : Relator.RightUnique (FailsWith outcomes) := by
    intro i e e' he he'
    exact Except.error.inj (Option.some.inj (he.symm.trans he'))
  rw [List.right_unique_forall₂' one each each']

/-- **Nothing is reported exactly if everything succeeded.** An outcome that is no value has failed or was
missed, and each of the two is reported: one error for every failed place, and one more if there are
missed ones. -/
theorem eq_nil_iff (h : AccountsFor outcomes errors) :
    errors = [] ↔ ∀ o ∈ outcomes, ∃ b, o = .ok b := by
  obtain ⟨failed, missed, failures, hfailed, hmissed, each, rfl⟩ := h
  have quiet : (if missed = [] then failures else failures ++ [.cancelled missed.length]) = [] ↔
      failed = [] ∧ missed = [] := by
    have same : failures = [] ↔ failed = [] := by
      rw [← List.length_eq_zero_iff, ← each.length_eq, List.length_eq_zero_iff]
    by_cases none : missed = [] <;> simp [none, same]
  rw [quiet, hfailed.eq_nil_iff, hmissed.eq_nil_iff, ← forall₂_and]
  refine forall₂_congr fun o _ => ⟨fun h => ?_, ?_⟩
  · exact (value_or_missed_or_failed o).resolve_right fun bad => bad.elim h.2 h.1
  · rintro ⟨b, rfl⟩
    exact ⟨not_failed_ok b, not_missed_ok b⟩

end AccountsFor

/-! ## 3. One pass over the outcomes -/

/-- What a pass over outcomes notes: what has been made of the values so far, the errors so far, and
how many items were not come to. -/
structure Tally (γ : Type) where
  value : γ
  errors : List RunError
  skipped : Nat

namespace Tally

/-- The notes before the first outcome. -/
def start (c : γ) : Tally γ :=
  ⟨c, [], 0⟩

/-- With one more outcome, of which `add` takes up a value. -/
def taking (add : γ → β → γ) (t : Tally γ) : Outcome β → Tally γ
  | .ok b => { t with value := add t.value b }
  | .error e =>
    if e = .notDispatched then { t with skipped := t.skipped + 1 }
    else { t with errors := t.errors ++ [e] }

/-- All errors at the end of the pass. -/
def reported (t : Tally γ) : List RunError :=
  if t.skipped = 0 then t.errors else t.errors ++ [.cancelled t.skipped]

/-- What comes of the pass. -/
def result (t : Tally γ) : Except Errors γ :=
  if t.reported.isEmpty then .ok t.value else .error ⟨t.reported⟩

/-- The notes have the errors of the outcomes in order, and the right number of items that were not
come to. -/
structure Faithful (outcomes : List (Outcome β)) (t : Tally γ) : Prop where
  errors : ∃ failed, Places Failed outcomes failed ∧
    List.Forall₂ (FailsWith outcomes) failed t.errors
  skipped : ∃ missed, Places Missed outcomes missed ∧ t.skipped = missed.length

variable {t : Tally γ}

/-- An error of an item is put behind those noted before. -/
theorem taking_error (add : γ → β → γ) {e : RunError} (h : e ≠ .notDispatched) :
    t.taking add (.error e) = { t with errors := t.errors ++ [e] } :=
  if_neg h

/-- Before the first outcome there is nothing to be faithful to. -/
theorem faithful_start (c : γ) : (start c).Faithful ([] : List (Outcome β)) :=
  ⟨⟨[], .nil, .nil⟩, [], .nil, rfl⟩

/-- **Taking one more outcome keeps the notes faithful.** Its place is behind all others, so it is put at
the end of one of the two lists, or of neither if it is a value. -/
theorem Faithful.taking (h : t.Faithful outcomes) (add : γ → β → γ) (o : Outcome β) :
    (t.taking add o).Faithful (outcomes ++ [o]) := by
  obtain ⟨⟨failed, hfailed, each⟩, missed, hmissed, count⟩ := h
  have each := failsWith_snoc each o
  -- The new outcome stands behind all others, so that its place is the largest one.
  rcases value_or_missed_or_failed o with ⟨b, rfl⟩ | rfl | ⟨e, he, rfl⟩
  · exact ⟨⟨failed, hfailed.snoc_of_not (not_failed_ok b), each⟩,
      missed, hmissed.snoc_of_not (not_missed_ok b), count⟩
  · refine ⟨⟨failed, hfailed.snoc_of_not not_failed_notDispatched, each⟩,
      missed ++ [outcomes.length], hmissed.snoc rfl, ?_⟩
    rw [List.length_append, ← count]
    rfl
  · have here : FailsWith (outcomes ++ [.error e]) outcomes.length e :=
      getElem?_snoc_iff.2 (.inr ⟨rfl, rfl⟩)
    rw [taking_error add he]
    exact ⟨⟨failed ++ [outcomes.length], hfailed.snoc ⟨e, he, rfl⟩,
      List.rel_append each (.cons here .nil)⟩,
      missed, hmissed.snoc_of_not (not_missed_error he), count⟩

/-- Notes that are faithful at some point are so when the pass is through. -/
theorem Faithful.foldl_taking (h : t.Faithful outcomes) (add : γ → β → γ)
    (rest : List (Outcome β)) :
    (rest.foldl (Tally.taking add) t).Faithful (outcomes ++ rest) := by
  induction rest generalizing t outcomes with
  | nil => rwa [List.append_nil]
  | cons o rest ih =>
    rw [List.foldl_cons, List.append_cons]
    exact ih (h.taking add o)

/-- Faithful notes account for the outcomes. -/
theorem Faithful.accountsFor (h : t.Faithful outcomes) : AccountsFor outcomes t.reported := by
  obtain ⟨⟨failed, hfailed, each⟩, missed, hmissed, count⟩ := h
  refine ⟨failed, missed, t.errors, hfailed, hmissed, each, ?_⟩
  rw [reported, count]
  simp only [List.length_eq_zero_iff]

/-- A pass succeeds with what it has made, if nothing is to be reported. -/
theorem result_eq_ok_iff {d : γ} : t.result = .ok d ↔ t.reported = [] ∧ t.value = d := by
  unfold result
  by_cases h : t.reported = [] <;> simp [h]

/-- It fails with what is to be reported, if that is anything. -/
theorem result_eq_error_iff : t.result = .error ⟨errors⟩ ↔ errors ≠ [] ∧ t.reported = errors := by
  unfold result
  by_cases h : t.reported = []
  · simp [h, eq_comm]
  · simp only [List.isEmpty_iff, h, if_false, Except.error.injEq, Errors.mk.injEq]
    exact ⟨fun same => ⟨same ▸ h, same⟩, And.right⟩

end Tally

/-- The error that an item failed with of itself. -/
def ownError : Outcome β → Option RunError
  | .ok _ => none
  | .error e => if e = .notDispatched then none else some e

/-- What a pass has noted at its end. -/
theorem foldl_taking_eq (add : γ → β → γ) (outcomes : List (Outcome β)) (t : Tally γ) :
    outcomes.foldl (Tally.taking add) t =
      ⟨(valuesOf outcomes).foldl add t.value, t.errors ++ outcomes.filterMap ownError,
        t.skipped + outcomes.countP isSkipped⟩ := by
  induction outcomes generalizing t with
  | nil => simp [valuesOf]
  | cons o outcomes ih =>
    rw [List.foldl_cons, ih]
    rcases value_or_missed_or_failed o with ⟨b, rfl⟩ | rfl | ⟨e, he, rfl⟩
    · rfl
    · have one : (.error .notDispatched :: outcomes).countP isSkipped =
          outcomes.countP isSkipped + 1 :=
        List.countP_cons_of_pos rfl
      simp [Tally.taking, valuesOf, ownError, one, Nat.add_assoc, Nat.add_comm 1]
    · simp [Tally.taking, valuesOf, ownError, isSkipped, he]

theorem valuesOf_map_ok (values : List β) : valuesOf (values.map .ok) = values := by
  rw [valuesOf, List.filterMap_map]
  exact List.filterMap_some

/-- If everything succeeded, the values are all that there is. -/
theorem map_ok_valuesOf (all : ∀ o ∈ outcomes, ∃ b, o = .ok b) :
    (valuesOf outcomes).map .ok = outcomes := by
  induction outcomes with
  | nil => rfl
  | cons o outcomes ih =>
    obtain ⟨⟨b, rfl⟩, rest⟩ := List.forall_mem_cons.1 all
    exact congrArg (Except.ok b :: ·) (ih rest)

/-- **A pass reports what has to be reported**, if taking up the values of all items one by one makes
of them what is to become of them. -/
theorem reports_of_pass {made : List β → γ → Prop} (add : γ → β → γ) (c : γ)
    (hmade : ∀ values d, made values d ↔ d = values.foldl add c) (outcomes : List (Outcome β)) :
    Reports made outcomes (outcomes.foldl (Tally.taking add) (.start c)).result := by
  have accounts := ((Tally.faithful_start c).foldl_taking add outcomes).accountsFor
  rw [List.nil_append] at accounts
  have value : (outcomes.foldl (Tally.taking add) (.start c)).value =
      (valuesOf outcomes).foldl add c :=
    congrArg Tally.value (foldl_taking_eq add outcomes (.start c))
  -- From here on the notes only matter for what they report and for what the values have become.
  generalize outcomes.foldl (Tally.taking add) (.start c) = t at accounts value
  refine ⟨?_, fun d => ?_, fun errors => ?_⟩
  · rw [← accounts.eq_nil_iff]
    simp [Tally.result_eq_ok_iff]
  · rw [Tally.result_eq_ok_iff, accounts.eq_nil_iff, value]
    constructor
    · rintro ⟨all, rfl⟩
      exact ⟨valuesOf outcomes, (map_ok_valuesOf all).symm, (hmade _ _).2 rfl⟩
    · rintro ⟨values, rfl, h⟩
      rw [valuesOf_map_ok, (hmade _ _).1 h]
      simp
  · rw [Tally.result_eq_error_iff]
    exact and_congr_right fun _ => ⟨fun same => same ▸ accounts, accounts.unique⟩

/-! ## 4. The front ends -/

/-- Sorting the outcomes first and noting them one by one comes to the same report. -/
theorem errorsOf_eq_reported (add : γ → β → γ) (c : γ) (outcomes : List (Outcome β)) :
    errorsOf outcomes = (outcomes.foldl (Tally.taking add) (.start c)).reported := by
  rw [foldl_taking_eq, Tally.reported, Tally.start, List.nil_append, Nat.zero_add, errorsOf]
  rw [List.filterMap_congr (g := ownError)]
  intro o _
  rcases value_or_missed_or_failed o with ⟨b, rfl⟩ | rfl | ⟨e, he, rfl⟩
  · rfl
  · rfl
  · simp [ownError, he]

/-- **Gathering and making something of the values is one pass over the outcomes.** The notes that are kept
on the way have the errors of `gather` at the end, and what has been made so far of the values. -/
theorem map_gather (add : γ → β → γ) (c : γ) (outcomes : List (Outcome β)) :
    (gather outcomes).map (fun values => values.foldl add c) =
      (outcomes.foldl (Tally.taking add) (.start c)).result := by
  rw [Tally.result, ← errorsOf_eq_reported, foldl_taking_eq, gather]
  cases errorsOf outcomes <;> rfl

/-- Values that are put behind each other make the list that they came from. -/
theorem foldl_snoc (values front : List β) :
    values.foldl (fun all v => all ++ [v]) front = front ++ values := by
  induction values generalizing front with
  | nil => exact (List.append_nil front).symm
  | cons v values ih => rw [List.foldl_cons, ih, List.append_assoc, List.singleton_append]

/-- Values that are gathered by themselves are listed as they come. -/
theorem gather_reports (outcomes : List (Outcome β)) :
    Reports (fun values all => all = values) outcomes (gather outcomes) := by
  have listed : (gather outcomes).map (fun values => values.foldl (fun all v => all ++ [v]) []) =
      gather outcomes := by
    simp only [foldl_snoc, List.nil_append]
    exact congrFun Except.map_id _
  rw [← listed, map_gather]
  refine reports_of_pass _ _ (fun values all => ?_) outcomes
  rw [foldl_snoc, List.nil_append]

/-- The outcome of the expression at a place is what the pool reported for it, if anything. -/
theorem getElem?_result_entries (texts : List String) (results : List (Nat × Outcome Value))
    (i : Nat) :
    ((entries texts results).map Entry.result)[i]? = texts[i]?.map fun _ =>
      ((results.find? fun r => r.1 = i).map Prod.snd).getD (.error .notDispatched) := by
  rw [entries, List.map_map, List.getElem?_map, List.getElem?_zipIdx, Nat.zero_add, Option.map_map]
  rfl

/-- A value at a place was reported for it. -/
theorem mem_of_result_entries (texts : List String) {results : List (Nat × Outcome Value)}
    {i : Nat} {v : Value}
    (h : ((entries texts results).map Entry.result)[i]? = some (.ok v)) :
    (i, .ok v) ∈ results := by
  rw [getElem?_result_entries] at h
  obtain ⟨-, -, reported⟩ := Option.map_eq_some_iff.1 h
  cases found : results.find? fun r => r.1 = i with
  | none =>
    rw [found] at reported
    cases reported
  | some r =>
    have there := List.find?_some found
    obtain rfl : r.1 = i := of_decide_eq_true there
    rw [found] at reported
    have outcome : r.2 = .ok v := reported
    rw [← outcome]
    exact List.mem_of_find?_eq_some found

/-- **Failures are all accounted for.** Whatever became of a list of documents or of expressions,
gathering succeeds exactly if every item succeeded. Else the errors are those of exactly the items
that failed of themselves, each once and in order, and behind them, if there are items that were not
come to, one error with their number; there is at least one error. On success, documents are merged
into the table of all their entries in which later ones win, and expressions give their values in
order: in whatever order a pool reported them, there is one for each text, and the value at a place was
reported for that place. -/
theorem failures_accounted :
    (∀ documents : List Document,
      Reports (fun tables merged => LaterWins tables.flatten merged)
        (documents.map Document.result) (merge documents)) ∧
    (∀ outcomes : List (Outcome Value),
      Reports (fun values all => all = values) outcomes (gather outcomes)) ∧
    ∀ (texts : List String) (results : List (Nat × Outcome Value)) (values : List Value),
      gather ((entries texts results).map Entry.result) = .ok values →
        values.length = texts.length ∧ ∀ i v, values[i]? = some v → (i, .ok v) ∈ results := by
  refine ⟨fun documents => ?_, gather_reports, fun texts results values h => ?_⟩
  · rw [merge, map_gather]
    exact reports_of_pass _ _ laterWins_iff _
  -- Everything succeeded, so that the outcomes of the entries are the values, place by place.
  · obtain ⟨_, same, rfl⟩ := ((gather_reports _).ok_iff values).1 h
    refine ⟨?_, fun i v hv => mem_of_result_entries texts ?_⟩
    · have lengths := congrArg List.length same
      rw [List.length_map, List.length_map] at lengths
      rw [← lengths, entries, List.length_map, List.length_zipIdx]
    · rw [same, List.getElem?_map, hv]
      rfl

/-- Of five documents one succeeded, two failed for the same reason, and two were not come to; two
expressions were done in the opposite order. -/
theorem failures_accounted_mixed :
    merge [⟨"a", .ok [("x", .int 1)]⟩, ⟨"b", .error .notDispatched⟩,
        ⟨"c", .error (.eval .divisionByZero)⟩, ⟨"d", .error (.eval .divisionByZero)⟩,
        ⟨"e", .error .notDispatched⟩] =
      .error ⟨[.eval .divisionByZero, .eval .divisionByZero, .cancelled 2]⟩ ∧
    merge [⟨"a", .ok [("x", .int 1), ("y", .int 1)]⟩, ⟨"b", .ok [("x", .int 2)]⟩] =
      .ok [("x", .int 2), ("y", .int 1)] ∧
    gather ((entries ["1", "2"] [(1, .ok (.int 2)), (0, .ok (.int 1))]).map Entry.result) =
      .ok [.int 1, .int 2] ∧
    ∀ i v, [Value.int 1, .int 2][i]? = some v →
      (i, .ok v) ∈ [(1, (.ok (.int 2) : Outcome Value)), (0, .ok (.int 1))] := by
  obtain ⟨documents, expressions, placed⟩ := failures_accounted
  have own : RunError.eval .divisionByZero ≠ .notDispatched := by
    rintro ⟨⟩
  have fails : Failed (.error (.eval .divisionByZero) : Outcome (Table Value)) := ⟨_, own, rfl⟩
  -- The third and the fourth failed, the second and the fifth were not come to.
  have failed := ((((Places.nil.snoc_of_not (not_failed_ok [("x", Value.int 1)])).snoc_of_not
    not_failed_notDispatched).snoc fails).snoc fails).snoc_of_not not_failed_notDispatched
  have missed := ((((Places.nil.snoc_of_not (not_missed_ok [("x", Value.int 1)])).snoc rfl
    ).snoc_of_not (not_missed_error own)).snoc_of_not (not_missed_error own)).snoc rfl
  have listed := ((expressions ((entries ["1", "2"]
    [(1, .ok (.int 2)), (0, .ok (.int 1))]).map Entry.result)).ok_iff [.int 1, .int 2]).2
      ⟨_, rfl, rfl⟩
  refine ⟨?_, ?_, listed, (placed _ _ _ listed).2⟩
  · exact ((documents _).error_iff _).2 ⟨List.cons_ne_nil _ _, _, _, [_, _], failed, missed,
      .cons rfl (.cons rfl .nil), rfl⟩
  · exact ((documents _).ok_iff _).2 ⟨[_, _], rfl, (laterWins_iff _ _).2 rfl⟩

end Batch

end BlockConfig
