import BlockConfig.Text.Search
import Mathlib.Data.List.Basic

/-!
Occurrences of a text in another one.

A search gives the first place at which the other text begins (`find?_eq_some_iff`), so where it finds
nothing there is nothing (`find?_eq_none_iff`).

Cutting a text at a separator and replacing the separator are the same walk. At every step of it joining
the pieces of the rest gives the rest with the separator replaced (`joinWith_splitFrom`), and the walk loses
nothing: with the separator itself in its place the rest is as it was, but for the characters that are
still to be passed over (`replaceFrom_self`). Both are inductions on the rest, for any number of such
characters, since an occurrence is recognised at its first character.
-/

set_option autoImplicit false

namespace BlockConfig.Text

/-! ## 1. Searching -/

theorem isSome_dropPrefix?_iff {p cs : List Char} : (dropPrefix? p cs).isSome = true ↔ p <+: cs := by
  rw [Option.isSome_iff_exists]
  exact exists_congr fun rest => dropPrefix?_eq_some_iff.trans eq_comm

section Searching

variable {needle cs : List Char} {i : Nat}

theorem find?_cons_here {c : Char} (h : needle <+: c :: cs) : find? needle (c :: cs) = some 0 := by
  rw [find?, if_pos (isSome_dropPrefix?_iff.2 h)]

theorem find?_cons_later {c : Char} (h : ¬ needle <+: c :: cs) :
    find? needle (c :: cs) = (find? needle cs).map (· + 1) := by
  rw [find?, if_neg fun h' => h (isSome_dropPrefix?_iff.1 h')]

/-- **A search gives the first place.** The needle begins there, and it begins nowhere before. -/
theorem find?_eq_some_iff :
    find? needle cs = some i ↔
      i ≤ cs.length ∧ needle <+: cs.drop i ∧ ∀ j < i, ¬ needle <+: cs.drop j := by
  induction cs generalizing i with
  | nil =>
    cases needle with
    | nil =>
      -- Nothing begins nothing, and there is no other place.
      rw [show find? [] [] = some 0 from rfl, Option.some.injEq]
      constructor
      · rintro rfl
        exact ⟨Nat.le_refl 0, List.nil_prefix, fun j hj => absurd hj (Nat.not_lt_zero j)⟩
      · exact fun h => (Nat.le_zero.1 h.1).symm
    | cons d ds => simp [find?]
  | cons c cs ih =>
    by_cases h : needle <+: c :: cs
    · rw [find?_cons_here h, Option.some.injEq]
      constructor
      · rintro rfl
        exact ⟨Nat.zero_le _, h, fun j hj => absurd hj (Nat.not_lt_zero j)⟩
      · rintro ⟨-, -, first⟩
        exact (Nat.eq_zero_of_not_pos fun hi => first 0 hi h).symm
    · rw [find?_cons_later h]
      cases i with
      | zero =>
        refine iff_of_false (fun hfind => ?_) fun hi => h hi.2.1
        obtain ⟨_, _, hne⟩ := Option.map_eq_some_iff.1 hfind
        exact Nat.succ_ne_zero _ hne
      | succ i =>
        have hmap : (find? needle cs).map (· + 1) = some (i + 1) ↔ find? needle cs = some i := by
          rw [Option.map_eq_some_iff]
          simp
        rw [hmap, ih, List.length_cons, Nat.add_le_add_iff_right, List.drop_succ_cons]
        refine and_congr_right fun _ => and_congr_right fun _ => ?_
        constructor
        · intro first j hj
          cases j with
          | zero => exact h
          | succ j => exact first j (Nat.lt_of_succ_lt_succ hj)
        · exact fun first j hj => first (j + 1) (Nat.succ_lt_succ hj)

/-- Nothing is found just when the text does not have it as a part. -/
theorem find?_eq_none_iff : find? needle cs = none ↔ ¬ needle <:+: cs := by
  induction cs with
  | nil =>
    cases needle with
    | nil => simp [find?]
    | cons d ds => simp [find?]
  | cons c cs ih =>
    rw [List.infix_cons_iff, not_or]
    by_cases h : needle <+: c :: cs
    · rw [find?_cons_here h]
      exact iff_of_false nofun fun hno => hno.1 h
    · rw [find?_cons_later h, Option.map_eq_none_iff, ih, and_iff_right h]

end Searching

/-! ## 2. Cutting and replacing -/

theorem joinWith_cons {sep piece : List Char} {pieces : List (List Char)} (h : pieces ≠ []) :
    joinWith sep (piece :: pieces) = piece ++ sep ++ joinWith sep pieces := by
  obtain ⟨p, ps, rfl⟩ := List.exists_cons_of_ne_nil h
  rfl

theorem joinWith_consHead (sep : List Char) (c : Char) {pieces : List (List Char)} (h : pieces ≠ []) :
    joinWith sep (consHead c pieces) = c :: joinWith sep pieces := by
  obtain ⟨p, ps, rfl⟩ := List.exists_cons_of_ne_nil h
  cases ps with
  | nil => rfl
  | cons q qs => rfl

/-- Joining single characters with nothing between them. -/
theorem joinWith_singletons (cs : List Char) : joinWith [] (cs.map fun c => [c]) = cs := by
  induction cs with
  | nil => rfl
  | cons c cs ih =>
    cases cs with
    | nil => rfl
    | cons d ds =>
      rw [List.map_cons, joinWith_cons (by simp), ih]
      rfl

/-- Splitting gives one part at least. -/
theorem splitFrom_ne_nil (sep : List Char) (skip : Nat) (cs : List Char) :
    splitFrom sep skip cs ≠ [] := by
  fun_induction splitFrom sep skip cs with
  | case1 => exact List.cons_ne_nil _ _
  | case2 skip c cs ih => exact ih
  | case3 => exact List.cons_ne_nil _ _
  | case4 c cs hno ih =>
    obtain ⟨p, ps, hpieces⟩ := List.exists_cons_of_ne_nil ih
    rw [hpieces]
    exact List.cons_ne_nil _ _

/-- The first piece is what the text begins with. -/
theorem prefix_of_splitFrom {sep cs piece : List Char} {pieces : List (List Char)}
    (h : splitFrom sep 0 cs = piece :: pieces) : piece <+: cs := by
  induction cs generalizing piece pieces with
  | nil =>
    obtain ⟨rfl, -⟩ := List.cons.inj h
    exact List.nil_prefix
  | cons c cs ih =>
    rw [splitFrom] at h
    split at h
    · obtain ⟨rfl, -⟩ := List.cons.inj h
      exact List.nil_prefix
    · obtain ⟨p, ps, hpieces⟩ := List.exists_cons_of_ne_nil (splitFrom_ne_nil sep 0 cs)
      rw [hpieces] at h
      obtain ⟨rfl, -⟩ := List.cons.inj h
      exact List.cons_prefix_cons.2 ⟨rfl, ih hpieces⟩

/-- **No piece has the separator in it.** It would have been recognised there, since what begins a piece
also begins the rest of the text. -/
theorem not_infix_of_mem_splitFrom {sep : List Char} (hsep : sep ≠ []) (skip : Nat) (cs : List Char) :
    ∀ piece ∈ splitFrom sep skip cs, ¬ sep <:+: piece := by
  fun_induction splitFrom sep skip cs with
  | case1 =>
    intro piece hpiece
    rw [List.mem_singleton.1 hpiece, List.infix_nil]
    exact hsep
  | case2 skip c cs ih => exact ih
  | case3 c cs hyes ih =>
    intro piece hpiece
    rcases List.mem_cons.1 hpiece with rfl | hpiece
    · rw [List.infix_nil]
      exact hsep
    · exact ih piece hpiece
  | case4 c cs hno ih =>
    obtain ⟨p, ps, hpieces⟩ := List.exists_cons_of_ne_nil (splitFrom_ne_nil sep 0 cs)
    rw [hpieces] at ih ⊢
    intro piece hpiece
    rcases List.mem_cons.1 hpiece with rfl | hpiece
    · rw [List.infix_cons_iff]
      rintro (hfront | hbehind)
      · have hpre : c :: p <+: c :: cs := List.cons_prefix_cons.2 ⟨rfl, prefix_of_splitFrom hpieces⟩
        exact hno (isSome_dropPrefix?_iff.2 (hfront.trans hpre))
      · exact ih p List.mem_cons_self hbehind
    · exact ih piece (List.mem_cons_of_mem p hpiece)

/-- **Joining with another text replaces the separator.** Splitting and replacing go through the text in the
same steps, past each occurrence at once. -/
theorem joinWith_splitFrom (sep new : List Char) (skip : Nat) (cs : List Char) :
    joinWith new (splitFrom sep skip cs) = replaceFrom sep new skip cs := by
  fun_induction splitFrom sep skip cs with
  | case1 => rfl
  | case2 skip c cs ih => exact ih
  | case3 c cs hyes ih =>
    rw [replaceFrom, if_pos hyes, joinWith_cons (splitFrom_ne_nil _ _ _), ih]
    rfl
  | case4 c cs hno ih =>
    rw [replaceFrom, if_neg hno, joinWith_consHead _ _ (splitFrom_ne_nil _ _ _), ih]

/-- What is replaced by itself stays. -/
theorem replaceFrom_self {old : List Char} (h : old ≠ []) (skip : Nat) (cs : List Char) :
    replaceFrom old old skip cs = cs.drop skip := by
  induction cs generalizing skip with
  | nil => exact List.drop_nil.symm
  | cons c cs ih =>
    cases skip with
    | succ skip => exact ih skip
    | zero =>
      rw [replaceFrom, List.drop_zero]
      split
      · rename_i hyes
        obtain ⟨rest, hrest⟩ := isSome_dropPrefix?_iff.1 hyes
        -- The occurrence begins with `c`, and the walk passes over what it has besides.
        obtain ⟨o, os, rfl⟩ := List.exists_cons_of_ne_nil h
        obtain ⟨rfl, hcs⟩ := List.cons.inj hrest
        rw [ih, List.length_cons, Nat.add_sub_cancel, ← hcs, List.append_eq, List.drop_left]
        rfl
      · rw [ih, List.drop_zero]

theorem joinWith_splitOn_eq_replace (sep new cs : List Char) :
    joinWith new (splitOn sep cs) = replace sep new cs :=
  joinWith_splitFrom sep new 0 cs

theorem joinWith_splitOn {sep : List Char} (h : sep ≠ []) (cs : List Char) :
    joinWith sep (splitOn sep cs) = cs :=
  (joinWith_splitFrom sep sep 0 cs).trans (replaceFrom_self h 0 cs)

end BlockConfig.Text
