import BlockConfig.Proofs.Value.Equality
import BlockConfig.Value.Document

/-!
Documents.

The plain view of a value is to hold nothing that evaluation keeps for itself: no reserved keys, no
blocks, no tuples, nothing undefined and not what `env` means on its own (`Clean`), and that at every depth.
What such a value is like is said constructor by constructor (`IsDocument`): it is a scalar of the
plain kinds, a list of documents, or a table of documents under keys that are not reserved.

Whatever a value is like, also one that is a malformed block, its view is a document
(`isDocument_toDocument`). The view changes nothing about a document, so making it again changes
nothing either (`toDocument_plain`).
-/

set_option autoImplicit false

namespace BlockConfig.Value

/-! ## 1. What stands in a value -/

/-- A value stands in another one, at some depth. -/
inductive Occurs (u : Value) : Value → Prop
  | here : Occurs u u
  | part {v w : Value} (mem : w ∈ v.parts) (h : Occurs u w) : Occurs u v

/-- A value is nothing that only evaluation knows, and none of its own keys is reserved. -/
structure Clean (u : Value) : Prop where
  not_block : u.isBlock = false
  not_tuple : ∀ items, u ≠ tuple items
  not_undefined : u ≠ undefined
  not_env : u ≠ env
  keys_open : ∀ t, u = map t → ∀ key ∈ Table.keys t, isReservedKey key = false

/-- A value of plain kinds, at every depth. -/
inductive IsDocument : Value → Prop
  | null : IsDocument null
  | bool (b : Bool) : IsDocument (bool b)
  | int (i : Int64) : IsDocument (int i)
  | float (x : Float) : IsDocument (float x)
  | str (s : String) : IsDocument (str s)
  | list {items : List Value} (below : ∀ v ∈ items, IsDocument v) : IsDocument (list items)
  | map {entries : List (String × Value)} (keys_open : ∀ e ∈ entries, isReservedKey e.1 = false)
    (below : ∀ e ∈ entries, IsDocument e.2) : IsDocument (map entries)

theorem isReservedKey_typeKey : isReservedKey typeKey = true :=
  rfl

section

variable {u v : Value} {t : Table Value} {key : String}

/-- A table whose keys are not reserved has nothing under a reserved one. -/
theorem find?_of_keys_open (h : ∀ e ∈ t, isReservedKey e.1 = false) (reserved : isReservedKey key = true) :
    Table.find? t key = none := by
  cases found : Table.find? t key with
  | none => rfl
  | some v => simpa [reserved] using h _ (Table.mem_of_find? found)

/-- Such a table is no block. -/
theorem isBlockTable_of_keys_open (h : ∀ e ∈ t, isReservedKey e.1 = false) : isBlockTable t = false := by
  rw [isBlockTable, Table.contains, find?_of_keys_open h isReservedKey_typeKey]
  rfl

theorem IsDocument.clean (h : v.IsDocument) : v.Clean := by
  cases h with
  | @map t keys_open =>
    refine ⟨isBlockTable_of_keys_open keys_open, nofun, nofun, nofun, ?_⟩
    rintro _ ⟨⟩ key hkey
    obtain ⟨e, he, rfl⟩ := List.mem_map.1 hkey
    exact keys_open e he
  | _ => exact ⟨rfl, nofun, nofun, nofun, nofun⟩

theorem IsDocument.part (h : v.IsDocument) (hu : u ∈ v.parts) : u.IsDocument := by
  cases h with
  | list below => exact below u hu
  | map _ below =>
    obtain ⟨e, he, rfl⟩ := List.mem_map.1 hu
    exact below e he
  | _ => cases hu

/-- **A document is clean at every depth.** By induction on the way down to the value: a part of a document
is a document. -/
theorem IsDocument.occurs (h : v.IsDocument) (hu : Occurs u v) : u.Clean := by
  induction hu with
  | here => exact h.clean
  | part mem _ ih => exact ih (h.part mem)

end

/-! ## 2. The view as functions on lists -/

theorem itemsDocument_eq_map (items : List Value) : itemsDocument items = items.map toDocument := by
  induction items with
  | nil => rfl
  | cons v vs ih => rw [itemsDocument, ih, List.map_cons]

theorem entriesDocument_cons (key : String) (v : Value) (t : Table Value) :
    entriesDocument ((key, v) :: t) =
      if isReservedKey key then entriesDocument t else (key, v.toDocument) :: entriesDocument t := by
  rw [entriesDocument]

/-- The properties of a block are those of the table that it has under `props`. -/
theorem propsDocument_eq (t : Table Value) :
    propsDocument t = match Table.find? t propsKey with
      | some (map props) => entriesDocument props
      | _ => [] := by
  induction t with
  | nil => rfl
  | cons e t ih =>
    obtain ⟨key, v⟩ := e
    by_cases h : key = propsKey
    · cases v <;> simp [propsDocument, Table.find?, h]
    · cases v <;> simp [propsDocument, Table.find?, h, Ne.symm h, ih]

/-! ## 3. The view of a value is a document -/

mutual

/-- **The view of any value is a document.** The function goes down into maps and lists itself, so all that
is below has been made a document as well. -/
theorem isDocument_toDocument : (v : Value) → v.toDocument.IsDocument
  | map entries => by
    rw [toDocument]
    split
    · have h := documents_propsDocument entries
      exact .map (fun e he => (h e he).1) fun e he => (h e he).2
    · have h := documents_entriesDocument entries
      exact .map (fun e he => (h e he).1) fun e he => (h e he).2
  | list items => by
    rw [toDocument]
    exact .list (documents_itemsDocument items)
  | tuple items => by
    rw [toDocument]
    exact isDocument_headDocument items
  | undefined | env | null => by
    rw [toDocument]
    exact .null
  | bool b => by
    rw [toDocument]
    exact .bool b
  | int i => by
    rw [toDocument]
    exact .int i
  | float x => by
    rw [toDocument]
    exact .float x
  | str s => by
    rw [toDocument]
    exact .str s

/-- The entries of a document have no reserved keys, and their values are documents again. -/
theorem documents_entriesDocument : (entries : List (String × Value)) →
    ∀ e ∈ entriesDocument entries, isReservedKey e.1 = false ∧ e.2.IsDocument
  | [] => nofun
  | (key, v) :: es => by
    have tail := documents_entriesDocument es
    rw [entriesDocument]
    split
    · exact tail
    · rename_i key_open
      exact List.forall_mem_cons.2 ⟨⟨by simpa using key_open, isDocument_toDocument v⟩, tail⟩

/-- The same of the properties of a block. -/
theorem documents_propsDocument : (entries : List (String × Value)) →
    ∀ e ∈ propsDocument entries, isReservedKey e.1 = false ∧ e.2.IsDocument
  | [] => nofun
  | (key, v) :: es => by
    have tail := documents_propsDocument es
    by_cases h : key = propsKey
    · cases v with
      | map props =>
        rw [propsDocument, if_pos h]
        exact documents_entriesDocument props
      | _ =>
        simp only [propsDocument, if_pos h]
        exact nofun
    · cases v <;> simpa only [propsDocument, if_neg h] using tail

theorem documents_itemsDocument : (items : List Value) → ∀ v ∈ itemsDocument items, v.IsDocument
  | [] => nofun
  | v :: vs => by
    rw [itemsDocument]
    exact List.forall_mem_cons.2 ⟨isDocument_toDocument v, documents_itemsDocument vs⟩

theorem isDocument_headDocument : (items : List Value) → (headDocument items).IsDocument
  | [] => by
    rw [headDocument]
    exact .null
  | v :: _ => by
    rw [headDocument]
    exact isDocument_toDocument v

end

/-! ## 4. The view of a document is the document -/

/-- Entries stay if their keys are not reserved and their values are their own views. -/
theorem entriesDocument_eq_self {t : Table Value} (keys_open : ∀ e ∈ t, isReservedKey e.1 = false)
    (below : ∀ e ∈ t, e.2.toDocument = e.2) : entriesDocument t = t := by
  induction t with
  | nil => rfl
  | cons e t ih =>
    obtain ⟨⟨key_open, keys_open⟩, value, below⟩ :=
      And.intro (List.forall_mem_cons.1 keys_open) (List.forall_mem_cons.1 below)
    rw [entriesDocument_cons, key_open, if_neg Bool.false_ne_true, value, ih keys_open below]

theorem IsDocument.toDocument_eq {v : Value} (h : v.IsDocument) : v.toDocument = v := by
  induction h with
  | list _ ih =>
    rw [toDocument, itemsDocument_eq_map, List.map_congr_left ih, List.map_id']
  | map keys_open _ ih =>
    rw [toDocument, isBlockTable_of_keys_open keys_open, if_neg Bool.false_ne_true,
      entriesDocument_eq_self keys_open ih]
  | _ => rw [toDocument]

/-- **Only documents are their own views.** So taking the view twice is taking it once. -/
theorem toDocument_eq_self_iff {v : Value} : v.toDocument = v ↔ v.IsDocument := by
  constructor
  · intro h
    rw [← h]
    exact isDocument_toDocument v
  · exact IsDocument.toDocument_eq

/-- **The view holds nothing internal, and making it again changes nothing.** At no depth of it is there
a reserved key, a block, a tuple, something undefined or what `env` means on its own. -/
theorem toDocument_plain (v : Value) :
    (∀ u, Occurs u v.toDocument → u.Clean) ∧ v.toDocument.toDocument = v.toDocument :=
  ⟨fun _ hu => (isDocument_toDocument v).occurs hu, toDocument_eq_self_iff.2 (isDocument_toDocument v)⟩

end BlockConfig.Value
