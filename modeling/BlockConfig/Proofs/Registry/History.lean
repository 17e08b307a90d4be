import BlockConfig.Builtin
import BlockConfig.Proofs.Eval.Blocks
import BlockConfig.Proofs.Text.LowerCase

/-!
The registry of functions through every history.

Four of the five operations take a name, and each makes a key of it on its own. What they have in common is
an invariant (`Registry.Lawful`): the keys are in order, they are in lower case, and there are no blanks
around them. Registering keeps it since lower case is the same in lower case again and does not make blanks.

The operations do not make their keys alike. Registering drops the blanks around a name, and the other
three do not. So a function that was registered under a name is found under it and under all its variants
(`found_through_history`) exactly if there are no blanks around the name; with blanks the function is found
under the trimmed name only, and nothing is ever found under the name that was registered.
-/

set_option autoImplicit false

namespace BlockConfig

/-! ## 1. Tables without an entry -/

namespace Table

variable {α : Type} {t : Table α} {k k' : String}

theorem keys_erase_sublist (t : Table α) (k : String) : (keys (erase t k)).Sublist (keys t) := by
  induction t with
  | nil => exact List.Sublist.refl _
  | cons entry t ih =>
    rw [erase]
    split
    · exact List.sublist_cons_self _ _
    · exact ih.cons_cons _

theorem find?_erase_of_ne (other : k' ≠ k) (t : Table α) : find? (erase t k) k' = find? t k' := by
  induction t with
  | nil => rfl
  | cons entry t ih =>
    rw [erase]
    split
    · rename_i same
      rw [find?, if_neg (same ▸ other)]
    · rw [find?, find?, ih]

/-- A table in order has no second entry under a key. -/
theorem find?_erase_self (h : IsSorted t) : find? (erase t k) k = none := by
  induction t with
  | nil => rfl
  | cons entry t ih =>
    obtain ⟨first, rest⟩ := List.pairwise_cons.1 h
    rw [erase]
    split
    · rename_i same
      exact find?_eq_none_of_not_mem fun mem => String.lt_irrefl _ (same ▸ first k mem)
    · rename_i other
      rw [find?, if_neg other, ih rest]

end Table

namespace Registry

open Text (lower trim)

variable {r r' : Registry} {name n : String} {f g : Callable}

/-! ## 2. One request -/

/-- What is asked of a registry. -/
inductive Request where
  | register (name : String) (f : Callable)
  | unregister (name : String)
  | lookup (name : String)
  | contains (name : String)
  | names

/-- What it answers. -/
inductive Answer where
  | registered (outcome : Except RegistryError Unit)
  | unregistered (removed : Bool)
  | found (f : Option Callable)
  | known (contained : Bool)
  | listed (names : List String)

/-- The answer to a request. -/
def answer (r : Registry) : Request → Answer
  | .register name f => .registered ((r.register name f).map fun _ => ())
  | .unregister name => .unregistered (r.contains name)
  | .lookup name => .found (r.lookup name)
  | .contains name => .known (r.contains name)
  | .names => .listed r.names

/-- The registry after a request. -/
def after (r : Registry) : Request → Registry
  | .register name f =>
    match r.register name f with
    | .ok r' => r'
    | .error _ => r
  | .unregister name => r.unregister name
  | .lookup _ | .contains _ | .names => r

/-- What registering does when it succeeds: the key was free, and now it is taken. -/
theorem register_ok (h : r.register name f = .ok r') :
    Table.find? r (lower (trim name)) = none ∧ r' = Table.insert r (lower (trim name)) f := by
  simp only [register] at h
  split at h
  · cases h
  · split at h
    · cases h
    · rename_i free
      refine ⟨?_, (Except.ok.inj h).symm⟩
      simpa [Table.contains] using free

theorem lookup_register (h : r.register name f = .ok r') (n : String) :
    r'.lookup n = if lower n = lower (trim name) then some f else r.lookup n := by
  rw [(register_ok h).2, lookup, Table.find?_insert, lookup]

/-- **Registering replaces nothing.** It fails if there is a function of that name, so the function that is
found had another one. -/
theorem lookup_register_of_found (h : r.register name f = .ok r') (found : r.lookup n = some g) :
    r'.lookup n = some g := by
  rw [lookup_register h, if_neg, found]
  intro same
  rw [lookup, same, (register_ok h).1] at found
  cases found

theorem contains_iff : r.contains n = true ↔ lower n ∈ r.names := by
  rw [contains, lookup, Table.isSome_find?_iff, names]

/-! ## 3. What every registry keeps -/

/-- The keys are in order, in lower case and without blanks around them. -/
structure Lawful (r : Registry) : Prop where
  sorted : Table.IsSorted r
  lowered : ∀ k ∈ r.names, lower k = k
  trimmed : ∀ k ∈ r.names, trim k = k

theorem Lawful.empty : Lawful empty :=
  ⟨List.Pairwise.nil, nofun, nofun⟩

/-- One more key that is made of a name without blanks around it. -/
theorem Lawful.insert (h : r.Lawful) (name : String) (f : Callable) :
    Lawful (Table.insert r (lower (trim name)) f) where
  sorted := Table.isSorted_insert h.sorted _ _
  lowered k hk := by
    rcases (Table.mem_keys_insert _ _ _ _).1 hk with rfl | hk
    · exact Text.lower_lower _
    · exact h.lowered k hk
  trimmed k hk := by
    rcases (Table.mem_keys_insert _ _ _ _).1 hk with rfl | hk
    · exact (Text.trim_lower_eq_self_iff _).2 (Text.trim_trim name)
    · exact h.trimmed k hk

theorem Lawful.unregister (h : r.Lawful) (name : String) : (r.unregister name).Lawful where
  sorted := h.sorted.sublist (Table.keys_erase_sublist _ _)
  lowered k hk := h.lowered k ((Table.keys_erase_sublist _ _).subset hk)
  trimmed k hk := h.trimmed k ((Table.keys_erase_sublist _ _).subset hk)

theorem Lawful.register (h : r.Lawful) (ok : r.register name f = .ok r') : r'.Lawful := by
  rw [(register_ok ok).2]
  exact h.insert name f

/-- A registry stays lawful whatever is asked of it; only registering and unregistering change it at all. -/
theorem Lawful.after (h : r.Lawful) (q : Request) : (r.after q).Lawful := by
  cases q with
  | register name f =>
    rw [Registry.after]
    split
    · rename_i r' ok
      exact h.register ok
    · exact h
  | unregister name => exact h.unregister name
  | lookup | contains | names => exact h

/-- The functions that every engine begins with. Their names have no blanks around them. -/
theorem Lawful.builtins : Registry.builtins.Lawful := by
  have tight : ∀ name ∈ Builtin.all.map Prod.fst, trim name = name := by
    decide +kernel
  have made : ∀ k ∈ Registry.builtins.names, ∃ name, lower (trim name) = k := by
    intro k hk
    obtain ⟨entry, mem, rfl⟩ := List.mem_map.1 hk
    rcases Table.mem_union mem with mem | mem
    · cases mem
    · obtain ⟨⟨name, f⟩, listed, rfl⟩ := List.mem_map.1 mem
      exact ⟨name, congrArg lower (tight name (List.mem_map_of_mem listed))⟩
  refine ⟨Table.isSorted_union (t := []) List.Pairwise.nil _, fun k hk => ?_, fun k hk => ?_⟩
  · obtain ⟨name, rfl⟩ := made k hk
    exact Text.lower_lower _
  · obtain ⟨name, rfl⟩ := made k hk
    exact (Text.trim_lower_eq_self_iff _).2 (Text.trim_trim name)

namespace Lawful

variable (h : r.Lawful)
include h

/-- **The listed names are those that are found,** as they are written in lower case. The keys are in lower
case from the start, and every one of them is found under itself. -/
theorem mem_names_iff : n ∈ r.names ↔ lower n = n ∧ r.contains n = true := by
  rw [contains_iff]
  constructor
  · intro listed
    have same := h.lowered n listed
    exact ⟨same, same.symm ▸ listed⟩
  · rintro ⟨same, listed⟩
    exact same ▸ listed

/-- Under a name with blanks around it nothing is found. -/
theorem lookup_of_blanks (blanks : trim n ≠ n) : r.lookup n = none := by
  refine Option.not_isSome_iff_eq_none.1 fun found => blanks ?_
  exact (Text.trim_lower_eq_self_iff n).1 (h.trimmed _ (contains_iff.1 found))

theorem lookup_unregister (name n : String) :
    (r.unregister name).lookup n = if lower n = lower name then none else r.lookup n := by
  rw [Registry.lookup, Registry.unregister, Registry.lookup]
  split
  · rename_i same
    rw [same, Table.find?_erase_self h.sorted]
  · rename_i other
    rw [Table.find?_erase_of_ne other]

end Lawful

/-! ## 4. Histories -/

/-- The registry after some requests. -/
def history (r : Registry) (asked : List Request) : Registry :=
  asked.foldl after r

/-- The requests with the answers that they get. -/
def exchanges (r : Registry) : List Request → List (Request × Answer)
  | [] => []
  | q :: asked => (q, r.answer q) :: exchanges (r.after q) asked

/-- No function is removed whose key is a given one. -/
def Keeps (r : Registry) (key : String) (asked : List Request) : Prop :=
  ∀ m, (.unregister m, .unregistered true) ∈ r.exchanges asked → lower m ≠ key

theorem Lawful.history (h : r.Lawful) (asked : List Request) : (r.history asked).Lawful := by
  induction asked generalizing r with
  | nil => exact h
  | cons q asked ih => exact ih (h.after q)

/-- What is found is found after any request that does not remove it. -/
theorem lookup_after (found : r.lookup n = some g) (q : Request)
    (kept : ∀ m, (q, r.answer q) = (.unregister m, .unregistered true) → lower m ≠ lower n) :
    (r.after q).lookup n = some g := by
  cases q with
  | register name f =>
    rw [after]
    split
    · rename_i r' ok
      exact lookup_register_of_found ok found
    · exact found
  | unregister m =>
    -- An entry with this key is there, so if `m` has the key, something is removed.
    have other : lower n ≠ lower m := by
      intro same
      have there : r.contains m = true := by
        rw [contains, lookup, ← same]
        exact Option.isSome_iff_exists.2 ⟨g, found⟩
      exact kept m (by rw [answer, there]) same.symm
    rw [after, lookup, unregister, Table.find?_erase_of_ne other]
    exact found
  | lookup | contains | names => exact found

/-- And after any history. -/
theorem lookup_history (found : r.lookup n = some g) {asked : List Request}
    (kept : r.Keeps (lower n) asked) : (r.history asked).lookup n = some g := by
  induction asked generalizing r with
  | nil => exact found
  | cons q asked ih =>
    refine ih (lookup_after found q fun m removed => kept m ?_) fun m removed => kept m ?_
    · rw [exchanges, removed]
      exact List.mem_cons_self
    · exact List.mem_cons_of_mem _ removed

section Registered

variable (ok : r.register name f = .ok r') {later : List Request}
  (kept : r'.Keeps (lower (trim name)) later)
include ok kept

/-- A function that has been registered is found under its key as long as it is not removed. -/
theorem lookup_registered (key : lower n = lower (trim name)) :
    (r'.history later).lookup n = some f := by
  refine lookup_history ?_ (by rwa [key])
  rw [lookup_register ok, if_pos key]

/-- Under the very name that it was registered with it is found exactly if there are no blanks around it. -/
theorem Lawful.lookup_registered_name (h : r.Lawful) (same : lower n = lower name) :
    (r'.history later).lookup n = if trim name = name then some f else none := by
  split
  · rename_i tight
    exact lookup_registered ok kept (by rw [same, tight])
  · rename_i blanks
    refine ((h.register ok).history later).lookup_of_blanks fun tight => blanks ?_
    rwa [← Text.trim_lower_eq_self_iff, ← same, Text.trim_lower_eq_self_iff]

end Registered

/-- **What is registered can be looked up, if there are no blanks around its name.** In every history of a
registry that began empty or with the builtins, the names are listed in strict order, and they are those
under which something is found. Removing a name takes away what was found under it and its variants, and
nothing else. Registering that fails changes nothing, and registering that succeeds replaces nothing. A
function that has been registered is found under every name with its key until it is removed. Its own name
and the variants of it that differ in capital letters only are such names exactly if there are no blanks
around it. Otherwise nothing is found under any of them. -/
theorem found_through_history {start : Registry} (beginning : start = empty ∨ start = builtins)
    (asked : List Request) :
    let r := start.history asked
    (r.names.Pairwise (· < ·) ∧ (∀ n, n ∈ r.names ↔ lower n = n ∧ r.contains n = true) ∧
      ∀ n, r.contains n = true ↔ lower n ∈ r.names) ∧
    (∀ name n, (r.unregister name).lookup n = if lower n = lower name then none else r.lookup n) ∧
    ∀ name f,
      (∀ e, r.register name f = .error e → r.after (.register name f) = r) ∧
      ∀ r', r.register name f = .ok r' →
        r.after (.register name f) = r' ∧
        (∀ n g, r.lookup n = some g → r'.lookup n = some g) ∧
        ∀ later, r'.Keeps (lower (trim name)) later →
          (∀ n, lower n = lower (trim name) → (r'.history later).lookup n = some f) ∧
          ∀ n, Text.IsAscii name → Text.SameLetters n name →
            (r'.history later).lookup n = (if trim name = name then some f else none) ∧
              (r'.history later).contains n = decide (trim name = name) := by
  have lawful : (start.history asked).Lawful := by
    rcases beginning with rfl | rfl
    · exact Lawful.empty.history asked
    · exact Lawful.builtins.history asked
  generalize start.history asked = r at lawful
  refine ⟨⟨lawful.sorted, fun n => lawful.mem_names_iff, fun n => contains_iff⟩,
    lawful.lookup_unregister, fun name f => ⟨fun e failed => by rw [after, failed], fun r' ok => ?_⟩⟩
  refine ⟨by rw [after, ok], fun n g found => lookup_register_of_found ok found, fun later kept =>
    ⟨fun n key => lookup_registered ok kept key, fun n ascii same => ?_⟩⟩
  have here := lawful.lookup_registered_name ok kept (same.lower_eq ascii)
  refine ⟨here, ?_⟩
  rw [contains, here]
  split <;> simp [*]

/-- A function that was registered with blanks around its name cannot be removed under that name, and is not
found under it. -/
theorem found_through_history_blanks :
    let length : Callable := fun args m => (Builtin.length args, m)
    let r := history empty [.register "b" length]
    ∃ r', r.register " Pad " length = .ok r' ∧
      r'.Keeps (lower (trim " Pad ")) [.unregister " Pad ", .register "pad" length] ∧
      (r'.history [.unregister " Pad ", .register "pad" length]).contains " Pad " = false ∧
      (r'.history [.unregister " Pad ", .register "pad" length]).lookup "PAD" = some length := by
  intro length r
  have ok : r.register " Pad " length = .ok [("b", length), ("pad", length)] := rfl
  have kept : Keeps [("b", length), ("pad", length)] (lower (trim " Pad "))
      [.unregister " Pad ", .register "pad" length] := by
    intro m removed
    have absent : contains [("b", length), ("pad", length)] " Pad " = false := rfl
    simp [exchanges, answer, absent] at removed
  obtain ⟨-, -, registered⟩ := found_through_history (.inl rfl) [.register "b" length]
  obtain ⟨-, -, found⟩ := (registered " Pad " length).2 _ ok
  obtain ⟨found, own⟩ := found _ kept
  have ascii : Text.IsAscii " Pad " := by decide +kernel
  refine ⟨_, ok, kept, ?_, found "PAD" (by decide +kernel)⟩
  rw [(own " Pad " ascii rfl).2]
  decide +kernel

end Registry

end BlockConfig
