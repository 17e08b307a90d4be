import BlockConfig.Eval.Inclusion

/-!
Where documents are found.

A document is known by its key: the full path of a file, or the address of a remote document. The key
says which of the two it is, because a full path begins at the root and an address does not
(`Location.ofKey`). And what is found as a file is one of the files of the tree
(`Source.find_cases`). So only as many documents can be had as there are files and remote documents,
under whatever paths they are asked for.
-/

set_option autoImplicit false

namespace BlockConfig

namespace Table

variable {α : Type}

theorem mem_keys_of_find? {t : Table α} {k : String} {v : α} (h : find? t k = some v) :
    k ∈ keys t :=
  List.mem_map.2 ⟨(k, v), mem_of_find? h, rfl⟩

theorem mem_keys_of_contains {t : Table α} {k : String} (h : contains t k = true) : k ∈ keys t := by
  obtain ⟨v, hv⟩ := Option.isSome_iff_exists.1 h
  exact mem_keys_of_find? hv

end Table

/-! ## 1. Files -/

namespace FileTree

/-- Whether a place is a directory or a file. -/
def Known (t : FileTree) (names : List String) : Prop :=
  t.isDirectory names = true ∨ Table.contains t.files (fullPath names) = true

/-- The root is a directory. -/
theorem known_root (t : FileTree) (n : Nat) : t.Known ([].take n) := by
  rw [List.take_nil]
  exact .inl rfl

/-- If every place on the way is known, then so is every place on the way to one step further. -/
theorem known_take_concat {t : FileTree} {here : List String} {name : String}
    (h : ∀ n, t.Known (here.take n)) (hname : t.Known (here ++ [name])) (n : Nat) :
    t.Known ((here ++ [name]).take n) := by
  by_cases hn : n ≤ here.length
  · rw [List.take_append_of_le_length hn]
    exact h n
  · rw [List.take_of_length_le]
    · exact hname
    · rw [List.length_append, List.length_singleton]
      omega

/-- Every place that a walk passes on the way to its end is known. The walk may go back as well, which
is why all of them are spoken of. -/
theorem known_of_walk {t : FileTree} {here segments names : List String}
    (h : ∀ n, t.Known (here.take n)) (hw : t.walk here segments = .ok names) :
    ∀ n, t.Known (names.take n) := by
  fun_induction walk t here segments with
  | case1 here => exact Except.ok.inj hw ▸ h
  | case2 here name more _ ih => exact ih h hw
  | case3 here more _ ih =>
    refine ih (fun n => ?_) hw
    rw [List.dropLast_eq_take, List.take_take]
    exact h _
  | case4 => cases hw
  | case5 here name more _ _ _ there hdir ih =>
    exact ih (known_take_concat h (.inl hdir)) hw
  | case6 here name more _ _ _ there _ hfile _ =>
    exact Except.ok.inj hw ▸ known_take_concat h (.inr hfile)
  | case7 => cases hw
  | case8 => cases hw

/-- A path that leads somewhere leads to a place that is known, be it walked from the root or from where one
is. -/
theorem known_of_locate {t : FileTree} {cwd path : String} {names : List String}
    (h : t.locate cwd path = .ok names) : t.Known names := by
  have ended : ∀ {here segments}, (∀ n, t.Known (here.take n)) → t.walk here segments = .ok names →
      t.Known names := by
    intro here segments hhere hw
    have := known_of_walk hhere hw names.length
    rwa [List.take_length] at this
  unfold locate at h
  split at h
  · cases h
  split at h
  · cases h
  split at h
  · cases h
  split at h
  · split at h
    · exact ended t.known_root h
    · cases h
  · rename_i here hcwd
    refine ended (fun n => ?_) h
    split
    · exact t.known_root n
    · exact known_of_walk t.known_root hcwd n

/-- **A path that means a file leads to a file of the tree,** whose full path begins at the root. So its key
is not the address of a document elsewhere. -/
theorem canonical?_of_isFile {t : FileTree} {cwd path : String} (h : t.isFile cwd path = true) :
    ∃ key, t.canonical? cwd path = some key ∧ key ∈ Table.keys t.files ∧
      key.toList.head? = some '/' := by
  unfold isFile at h
  unfold canonical?
  cases located : t.locate cwd path with
  | error fault => rw [located] at h; cases h
  | ok names =>
    rw [located] at h
    have notDirectory : t.isDirectory names = false := by simpa using h
    cases names with
    | nil => cases notDirectory
    | cons name names =>
      refine ⟨fullPath (name :: names), rfl, ?_, ?_⟩
      · rcases known_of_locate located with hdir | hfile
        · exact absurd hdir (by simp [notDirectory])
        · exact Table.mem_keys_of_contains hfile
      · rw [fullPath, List.map_cons, String.join_cons]
        simp

end FileTree

/-! ## 2. Keys -/

/-- An address does not begin at the root. -/
theorem isRemote_of_root {key : String} (h : key.toList.head? = some '/') : isRemote key = false := by
  unfold isRemote
  cases hkey : key.toList with
  | nil => rfl
  | cons c cs =>
    rw [hkey] at h
    obtain rfl := Option.some.inj h
    rfl

/-- The document with a key. -/
def Location.ofKey (key : String) : Location :=
  if isRemote key then .remote key else .file key

@[simp] theorem Location.key_ofKey (key : String) : (ofKey key).key = key := by
  unfold ofKey
  split <;> rfl

theorem Location.ofKey_injective {key key' : String} (h : ofKey key = ofKey key') : key = key' := by
  rw [← key_ofKey key, h, key_ofKey]

namespace Source

variable {src : Source} {host : Host} {target : String} {place : Location}

/-- A target that is found is an address and taken as it is, or the path of a file. -/
theorem find_cases (h : src.find host target = .ok place) :
    (place = .remote target ∧ isRemote target = true) ∨
      ∃ key, place = .file key ∧ key ∈ Table.keys host.files.files ∧ isRemote key = false := by
  unfold find at h
  split at h
  · rename_i remote
    split at h
    · exact .inl ⟨(Except.ok.inj h).symm, remote⟩
    · cases h
  · split at h
    · rename_i path hpath
      have isFile : host.files.isFile host.workingDirectory path = true := List.find?_some hpath
      obtain ⟨key, hkey, hmem, hroot⟩ := FileTree.canonical?_of_isFile isFile
      refine .inr ⟨key, ?_, hmem, isRemote_of_root hroot⟩
      rw [Host.canonical?, hkey] at h
      exact (Except.ok.inj h).symm
    · cases h

/-- The key of a document says what it is. -/
theorem ofKey_of_find (h : src.find host target = .ok place) : Location.ofKey place.key = place := by
  rcases find_cases h with ⟨rfl, remote⟩ | ⟨key, rfl, -, local'⟩
  · exact if_pos remote
  · exact if_neg (by simp [Location.key, local'])

end Source

end BlockConfig
