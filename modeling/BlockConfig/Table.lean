/-!
Tables: entries in the order of their keys, at most one for each key.

A table is a list of pairs. `insert` puts an entry where its key belongs, so a table that was built
by inserting is in order (`isSorted_insert`) and lists its keys by code point. Looking up what has
been inserted is described by `find?_insert`.
-/

set_option autoImplicit false

namespace BlockConfig

/-- A table from strings to `α`. -/
abbrev Table (α : Type) : Type := List (String × α)

namespace Table

variable {α : Type}

/-- The value kept under a key. -/
def find? : Table α → String → Option α
  | [], _ => none
  | (k', v) :: t, k => if k = k' then some v else find? t k

/-- Whether a key has a value. -/
def contains (t : Table α) (k : String) : Bool :=
  (find? t k).isSome

/-- The table with one more entry, in place of any entry with the same key. -/
def insert : Table α → String → α → Table α
  | [], k, v => [(k, v)]
  | (k', v') :: t, k, v =>
    if k = k' then (k, v) :: t
    else if k < k' then (k, v) :: (k', v') :: t
    else (k', v') :: insert t k v

/-- The table without the entry of a key. -/
def erase : Table α → String → Table α
  | [], _ => []
  | (k', v') :: t, k => if k = k' then t else (k', v') :: erase t k

/-- The entries of both tables; the second one wins. -/
def union (t u : Table α) : Table α :=
  u.foldl (fun t entry => insert t entry.1 entry.2) t

/-- The table with the given entries; of two with the same key the later one counts. -/
def ofEntries (entries : List (String × α)) : Table α :=
  union [] entries

/-- The keys of a table, in order. -/
def keys (t : Table α) : List String :=
  t.map Prod.fst

/-- The keys are in strictly ascending order. -/
def IsSorted (t : Table α) : Prop :=
  (keys t).Pairwise (· < ·)

/-- After setting an entry its key is found with the new value, and every other key with what it had. -/
@[simp] theorem find?_insert (t : Table α) (k k' : String) (v : α) :
    find? (insert t k v) k' = if k' = k then some v else find? t k' := by
  induction t with
  | nil => simp [insert, find?]
  | cons entry t ih =>
    obtain ⟨key, value⟩ := entry
    rw [insert]
    by_cases h : k = key
    · subst h
      by_cases h' : k' = k <;> simp [find?, h']
    -- The new entry goes in front of the first larger key, or further back.
    · by_cases hlt : k < key
      · simp [h, hlt, find?]
      · simp only [h, hlt, if_false, find?, ih]
        by_cases h' : k' = key
        · simp [h', Ne.symm h]
        · simp [h']

/-- The keys after an insertion are those before it and the new one. -/
theorem mem_keys_insert (t : Table α) (k k' : String) (v : α) :
    k' ∈ keys (insert t k v) ↔ k' = k ∨ k' ∈ keys t := by
  induction t with
  | nil => simp [insert, keys]
  | cons entry t ih =>
    obtain ⟨key, value⟩ := entry
    rw [insert]
    by_cases h : k = key
    · subst h
      simp [keys]
    · by_cases hlt : k < key
      · simp [h, hlt, keys]
      · simp only [keys] at ih
        simp only [h, hlt, if_false, keys, List.map_cons, List.mem_cons, ih]
        exact or_left_comm

/-- **Inserting keeps the order.** An entry is put in front of the first one with a greater key, or it
replaces the one with its own. -/
theorem isSorted_insert {t : Table α} (h : IsSorted t) (k : String) (v : α) :
    IsSorted (insert t k v) := by
  induction t with
  | nil => simp [insert, IsSorted, keys]
  | cons entry t ih =>
    obtain ⟨key, value⟩ := entry
    simp only [IsSorted, keys, List.map_cons, List.pairwise_cons] at h
    rw [insert]
    by_cases hk : k = key
    · subst hk
      simpa [IsSorted, keys] using h
    · by_cases hlt : k < key
      · simp only [hk, hlt, if_false, if_true, IsSorted, keys, List.map_cons, List.pairwise_cons,
          List.mem_cons]
        refine ⟨?_, h⟩
        rintro x (rfl | hx)
        · exact hlt
        · exact String.lt_trans hlt (h.1 x hx)
      · simp only [hk, hlt, if_false, IsSorted, keys, List.map_cons, List.pairwise_cons]
        refine ⟨?_, ih h.2⟩
        intro x hx
        rcases (mem_keys_insert t k x v).1 hx with rfl | hx
        · exact Std.lt_of_le_of_ne (String.not_lt.1 hlt) (Ne.symm hk)
        · exact h.1 x hx

/-- What is found under a key is an entry. -/
theorem mem_of_find? {t : Table α} {k : String} {v : α} (h : find? t k = some v) : (k, v) ∈ t := by
  induction t with
  | nil => cases h
  | cons entry t ih =>
    rw [find?] at h
    split at h
    · rename_i same
      rw [same, ← Option.some.inj h]
      exact List.mem_cons_self
    · exact List.mem_cons_of_mem _ (ih h)

theorem mem_insert {t : Table α} {k : String} {v : α} {entry : String × α}
    (h : entry ∈ insert t k v) : entry = (k, v) ∨ entry ∈ t := by
  induction t with
  | nil => exact .inl (List.mem_singleton.1 h)
  | cons first t ih =>
    rw [insert] at h
    grind

/-- The entries of a union are entries of the tables. -/
theorem mem_union {t u : Table α} {entry : String × α} (h : entry ∈ union t u) :
    entry ∈ t ∨ entry ∈ u := by
  unfold union at h
  induction u generalizing t with
  | nil => exact .inl h
  | cons first u ih =>
    rcases ih h with h | h
    · rcases mem_insert h with rfl | h
      · exact .inr List.mem_cons_self
      · exact .inl h
    · exact .inr (List.mem_cons_of_mem _ h)

/-- Entries with different keys can be inserted in any order. -/
theorem insert_comm {k k' : String} (h : k ≠ k') (t : Table α) (v v' : α) :
    insert (insert t k v) k' v' = insert (insert t k' v') k v := by
  -- In front of the same entry the smaller key comes first, whichever was inserted before.
  induction t with
  | nil => grind [insert]
  | cons entry t ih => grind [insert]

/-- An entry can be inserted before or after a table that does not have its key. -/
theorem union_insert {t u : Table α} {k : String} (h : k ∉ keys u) (v : α) :
    union (insert t k v) u = insert (union t u) k v := by
  unfold union
  induction u generalizing t with
  | nil => rfl
  | cons entry u ih =>
    simp only [keys, List.map_cons, List.mem_cons, not_or] at h
    rw [List.foldl_cons, List.foldl_cons, insert_comm h.1]
    exact ih h.2

/-- **Tables with different keys can be united in any order.** By induction on the second table, an entry at
a time. -/
theorem union_right_comm {t u v : Table α} (h : ∀ k ∈ keys u, k ∉ keys v) :
    union (union t u) v = union (union t v) u := by
  induction u generalizing t with
  | nil => rfl
  | cons entry u ih =>
    simp only [keys, List.map_cons, List.mem_cons, forall_eq_or_imp] at h
    calc union (union t (entry :: u)) v
        = union (union (insert t entry.1 entry.2) u) v := rfl
      _ = union (union (insert t entry.1 entry.2) v) u := ih h.2
      _ = union (insert (union t v) entry.1 entry.2) u := by rw [union_insert h.1]
      _ = union (union t v) (entry :: u) := rfl

end Table

end BlockConfig
