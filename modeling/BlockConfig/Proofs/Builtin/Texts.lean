import BlockConfig.Builtin
import BlockConfig.Proofs.Text.Occurrences
import BlockConfig.Proofs.Value.Arithmetic
import Mathlib.Algebra.Group.Nat.Defs

/-!
The functions on texts, and how they fit together.

What `split` cuts apart `join` puts together again, and with another separator it gives what `replace`
gives (`split_join_replace`). The position that `index` gives is counted as `substring` and `length` count
(`index_first`). Positions are 64-bit integers, so this is said of texts whose length is one.

Where its end is left out `substring` goes up to the end of the text, and an end behind that means the same
as long as the start is not behind it as well (`substring_end_behind`). A start behind the end of the text
is an error if the end is left out or is the end of the text, and gives nothing if an end further behind is
written: the range is looked at before its ends are moved into the text.
-/

set_option autoImplicit false

namespace BlockConfig.Builtin

open Value

/-! ## 1. Cutting, joining and replacing -/

theorem split_texts (s a : String) :
    split [str s, str a] = .value (.list
      ((if a.toList.isEmpty then s.toList.map fun c => [c] else Text.splitOn a.toList s.toList).map
        text)) :=
  rfl

theorem join_texts (pieces : List (List Char)) (b : String) :
    join [.list (pieces.map text), str b] = .value (text (Text.joinWith b.toList pieces)) := by
  have hpieces : (pieces.map text).map (fun v => v.print.toList) = pieces := by
    rw [List.map_map]
    exact (List.map_congr_left fun piece _ => String.toList_ofList).trans (List.map_id pieces)
  show Reply.value (text (Text.joinWith b.toList ((pieces.map text).map fun v => v.print.toList))) = _
  rw [hpieces]

theorem replace_texts {a : String} (ha : a ≠ "") (s b : String) :
    replace [str s, str a, str b] = .value (text (Text.replace a.toList b.toList s.toList)) := by
  have hempty : ¬ a.toList.isEmpty = true := by simpa using ha
  exact if_neg hempty

/-- **Splitting, joining and replacing fit together.** The pieces of a text joined with the separator are
the text, also if the separator is empty. If it is not, no piece has the separator in it, and the pieces
joined with another text are the text with the separator replaced. -/
theorem split_join_replace (s a : String) :
    ∃ pieces : List String, split [str s, str a] = .value (.list (pieces.map str)) ∧
      join [.list (pieces.map str), str a] = .value (str s) ∧
      (a ≠ "" → (∀ piece ∈ pieces, ¬ a.toList <:+: piece.toList) ∧
        ∀ b, ∃ r, join [.list (pieces.map str), str b] = .value (str r) ∧
          replace [str s, str a, str b] = .value (str r)) := by
  have hstr : ∀ pieces : List (List Char),
      (pieces.map String.ofList).map str = pieces.map text := fun _ => List.map_map
  by_cases ha : a = ""
  · subst ha
    refine ⟨(s.toList.map fun c => [c]).map String.ofList, ?_, ?_, fun h => absurd rfl h⟩
    · rw [split_texts, hstr]
      rfl
    · have hjoin : Text.joinWith "".toList (s.toList.map fun c => [c]) = s.toList :=
        Text.joinWith_singletons s.toList
      rw [hstr, join_texts, hjoin, text, String.ofList_toList]
  · have hne : a.toList ≠ [] := by simpa using ha
    refine ⟨(Text.splitOn a.toList s.toList).map String.ofList, ?_, ?_, fun _ => ⟨?_, fun b => ?_⟩⟩
    · rw [split_texts, hstr, if_neg (by simpa using ha)]
    · rw [hstr, join_texts, Text.joinWith_splitOn hne, text, String.ofList_toList]
    · intro piece hpiece
      obtain ⟨p, hp, rfl⟩ := List.mem_map.1 hpiece
      rw [String.toList_ofList]
      exact Text.not_infix_of_mem_splitFrom hne 0 s.toList p hp
    · refine ⟨String.ofList (Text.replace a.toList b.toList s.toList), ?_, replace_texts ha s b⟩
      rw [hstr, join_texts, Text.joinWith_splitOn_eq_replace]
      rfl

/-- A separator that overlaps itself is found from the front. -/
example : replace [str "aaaa-aaa", str "aa", str "x"] = .value (str "xx-xa") := by
  rw [replace_texts (by decide)]
  rfl

/-! ## 2. Ranges -/

/-- The characters from one place up to another; an error if the places are out of order or the first one is
negative. -/
def slice (cs : List Char) (start stop : Int) : Reply :=
  if start < 0 ∨ stop < start then
    .error ("substring: invalid range " ++ toString start ++ ".." ++ toString stop)
  else .value (text ((cs.take stop.toNat).drop start.toNat))

theorem slice_of_le {start stop : Int} (h : 0 ≤ start) (hle : start ≤ stop) (cs : List Char) :
    slice cs start stop = .value (text ((cs.take stop.toNat).drop start.toNat)) :=
  if_neg (by omega)

theorem slice_of_lt {start stop : Int} (h : stop < start) (cs : List Char) :
    slice cs start stop =
      .error ("substring: invalid range " ++ toString start ++ ".." ++ toString stop) :=
  if_pos (.inr h)

theorem substring_between (s : String) (start stop : Int64) :
    substring [str s, int start, int stop] = slice s.toList start.toInt stop.toInt := by
  show reply (if start.toInt < 0 ∨ stop.toInt < start.toInt then _ else _) = _
  rw [slice]
  split <;> rfl

theorem substring_from (s : String) (start : Int64) :
    substring [str s, int start] = slice s.toList start.toInt s.toList.length := by
  show reply (if start.toInt < 0 ∨ (s.toList.length : Int) < start.toInt then _ else _) = _
  rw [slice]
  split <;> rfl

/-- An end behind the text is the end of the text. -/
theorem slice_of_length_le {cs : List Char} {start stop : Int} (h : 0 ≤ start) (hle : start ≤ stop)
    (hstop : cs.length ≤ stop) : slice cs start stop = .value (text (cs.drop start.toNat)) := by
  rw [slice_of_le h hle, List.take_of_length_le (by omega)]

/-- **An end behind the text is the end of the text, for a start within the text.** A range whose end is
left out goes up to the length. One that is written up to the length or further has the same outcome exactly
if the start is not behind the text; then it gives all that is behind the start. A start behind the text is
an error if the end is left out and gives nothing if a later end is written. -/
theorem substring_end_behind (s : String) {start stop : Int64} (hstart : 0 ≤ start)
    (hstop : (s.length : Int) ≤ stop.toInt) (hle : start ≤ stop) :
    (∀ length : Int64, length.toInt = s.length →
      substring [str s, int start] = substring [str s, int start, int length]) ∧
    (substring [str s, int start, int stop] = substring [str s, int start] ↔
      start.toInt ≤ s.length) ∧
    (start.toInt ≤ s.length →
      substring [str s, int start, int stop] = .value (text (s.toList.drop start.toInt.toNat))) ∧
    (s.length < start.toInt → substring [str s, int start, int stop] = .value (str "") ∧
      substring [str s, int start] = .error ("substring: invalid range " ++ toString start.toInt ++
        ".." ++ toString (s.length : Int))) := by
  have hnonneg : 0 ≤ start.toInt := Int64.le_iff_toInt_le.1 hstart
  have hlength : (s.toList.length : Int) = s.length := congrArg _ String.length_toList
  have hbehind := slice_of_length_le hnonneg (Int64.le_iff_toInt_le.1 hle)
    (Int.le_trans (Int.le_of_eq hlength) hstop)
  rw [substring_from, substring_between, hlength]
  -- Behind the text nothing is left, and the range up to its length is out of order.
  have hout : s.length < start.toInt → slice s.toList start.toInt stop.toInt = .value (str "") ∧
      slice s.toList start.toInt s.length = .error ("substring: invalid range " ++
        toString start.toInt ++ ".." ++ toString (s.length : Int)) := by
    intro hlt
    refine ⟨?_, slice_of_lt hlt _⟩
    rw [hbehind, List.drop_of_length_le (by omega)]
    rfl
  refine ⟨fun length hlength => ?_, ⟨fun hsame => ?_, fun hin => ?_⟩, fun _ => hbehind, hout⟩
  · rw [substring_between, hlength]
  · refine Int.not_lt.1 fun hlt => ?_
    rw [(hout hlt).1, (hout hlt).2] at hsame
    cases hsame
  · rw [hbehind, slice_of_length_le hnonneg hin (Int.le_of_eq hlength)]

/-- Both ends behind a text of three characters. -/
theorem substring_end_behind_both :
    substring [str "abc", int 5, int 7] = .value (str "") ∧
      substring [str "abc", int 5] = .error "substring: invalid range 5..3" ∧
      substring [str "abc", int 5, int 7] ≠ substring [str "abc", int 5] := by
  have h := @substring_end_behind "abc" 5 7 (by decide) (by decide) (by decide)
  have hout := h.2.2.2 (by decide)
  refine ⟨hout.1, hout.2, fun hsame => ?_⟩
  exact absurd (h.2.1.1 hsame) (by decide)

/-! ## 3. Positions -/

/-- The first place of `t` in `s`: the text there is `t`, at no earlier place it is, and what stands in
front of the place and what follows from it on are the text. The length of `t` is `n`. -/
structure FirstAt (s t : String) (i n : Int64) : Prop where
  nonneg : 0 ≤ i
  here : ∃ stop, binary .add (int i) (int n) = .ok (int stop) ∧
    substring [str s, int i, int stop] = .value (str t)
  notEarlier : ∀ j, 0 ≤ j → j < i → ∃ stop u, binary .add (int j) (int n) = .ok (int stop) ∧
    substring [str s, int j, int stop] = .value (str u) ∧ u ≠ t
  parts : ∃ front back, substring [str s, int 0, int i] = .value (str front) ∧
    substring [str s, int i] = .value (str back) ∧ binary .add (str front) (str back) = .ok (str s)

section Positions

variable {s t : String} {j : Int64}

/-- What stands at a place of a text that leaves enough room for `t` there. -/
theorem substring_at (hs : s.length < 2 ^ 63) (hj : 0 ≤ j)
    (hroom : j.toInt + t.length ≤ s.length) :
    ∃ stop, binary .add (int j) (int (Int64.ofNat t.length)) = .ok (int stop) ∧
      substring [str s, int j, int stop] =
        .value (text ((s.toList.drop j.toInt.toNat).take t.length)) := by
  have hnonneg : 0 ≤ j.toInt := Int64.le_iff_toInt_le.1 hj
  have hlength : (Int64.ofNat t.length).toInt = t.length := Int64.toInt_ofNat_of_lt (by omega)
  have hfits : Fits (j.toInt + t.length) := ⟨by omega, by omega⟩
  refine ⟨Int64.ofInt (j.toInt + t.length), ?_, ?_⟩
  · show checked "+" (j.toInt + (Int64.ofNat t.length).toInt) = _
    rw [hlength, checked_of_fits hfits]
  · rw [substring_between, toInt_ofInt hfits, slice_of_le hnonneg (by omega), List.drop_take]
    have htake : (j.toInt + t.length).toNat - j.toInt.toNat = t.length := by omega
    rw [htake]

/-- A text stands at a place if the characters from there on begin with it. -/
theorem text_take_eq_iff (cs : List Char) :
    text (cs.take t.length) = str t ↔ t.toList <+: cs := by
  rw [List.prefix_iff_eq_take, String.length_toList, text, Value.str.injEq, ← String.toList_inj,
    String.toList_ofList, eq_comm]

/-- A place that was found is the first one, and splits the text into what is in front of it, what was
looked for and the rest. The places fit into an integer because the length of the text does. -/
theorem firstAt_of_find? (hs : s.length < 2 ^ 63) {i : Nat}
    (h : Text.find? t.toList s.toList = some i) :
    FirstAt s t (Int64.ofNat i) (Int64.ofNat t.length) := by
  obtain ⟨hi, hhere, hfirst⟩ := Text.find?_eq_some_iff.1 h
  have hlength := hhere.length_le
  rw [List.length_drop, String.length_toList, String.length_toList] at hlength
  rw [String.length_toList] at hi
  have htoInt : (Int64.ofNat i).toInt = i := Int64.toInt_ofNat_of_lt (by omega)
  have hnonneg : 0 ≤ Int64.ofNat i := by
    rw [Int64.le_iff_toInt_le, htoInt]
    exact Int.natCast_nonneg i
  refine ⟨hnonneg, ?_, fun j hj hlt => ?_, ?_⟩
  · obtain ⟨stop, hadd, hsub⟩ := substring_at (t := t) hs hnonneg (by omega)
    refine ⟨stop, hadd, hsub.trans ?_⟩
    rw [htoInt, Int.toNat_natCast, (text_take_eq_iff _).2 hhere]
  · have hjnonneg : 0 ≤ j.toInt := Int64.le_iff_toInt_le.1 hj
    rw [Int64.lt_iff_toInt_lt, htoInt] at hlt
    -- At an earlier place the text would have been found there.
    obtain ⟨stop, hadd, hsub⟩ := substring_at (t := t) hs hj (by omega)
    refine ⟨stop, _, hadd, hsub, fun hsame => ?_⟩
    exact hfirst j.toInt.toNat (by omega) ((text_take_eq_iff _).1 (congrArg str hsame))
  · refine ⟨String.ofList (s.toList.take i), String.ofList (s.toList.drop i), ?_, ?_, ?_⟩
    · have hzero : (0 : Int64).toInt = 0 := rfl
      rw [substring_between, hzero, htoInt, slice_of_le (Int.le_refl 0) (Int.natCast_nonneg i)]
      rfl
    · have hin : (i : Int) ≤ s.toList.length := by
        rw [String.length_toList]
        omega
      rw [substring_from, htoInt, slice_of_length_le (Int.natCast_nonneg i) hin (Int.le_refl _)]
      rfl
    · show Except.ok (str (String.ofList (s.toList.take i) ++ String.ofList (s.toList.drop i))) = _
      rw [← String.ofList_append, List.take_append_drop, String.ofList_toList]

/-- The builtin looks for the first place and says minus one if there is none. -/
theorem index_texts (s t : String) :
    index [str s, str t] =
      .value (int (((Text.find? t.toList s.toList).map Int64.ofNat).getD (-1))) := by
  have hsearched : chars [str s, str t] 0 = s.toList := rfl
  have hneedle : chars [str s, str t] 1 = t.toList := rfl
  have harity : 2 ≤ [str s, str t].length ∧ [str s, str t].length ≤ 2 :=
    ⟨Nat.le_refl 2, Nat.le_refl 2⟩
  rw [index, withArity, if_pos harity, hsearched, hneedle]
  cases Text.find? t.toList s.toList with
  | none => rfl
  | some i => rfl

/-- **The position of a text counts as the other functions count.** It is -1 exactly if the text does not
occur, and otherwise the first place of the text; and the text is what the other one starts with exactly if
that place is the beginning. -/
theorem index_first (hs : s.length < 2 ^ 63) (t : String) :
    ∃ i n, index [str s, str t] = .value (int i) ∧ length [str t] = .value (int n) ∧
      (i = -1 ↔ ¬ t.toList <:+: s.toList) ∧ (i ≠ -1 → FirstAt s t i n) ∧
      startsWith [str s, str t] = .value (bool (i = 0)) := by
  have hstarts : startsWith [str s, str t] =
      .value (bool (Text.dropPrefix? t.toList s.toList).isSome) := rfl
  have hlength : Builtin.length [str t] = .value (int (Int64.ofNat t.length)) := by
    rw [← String.length_toList]
    rfl
  cases hfind : Text.find? t.toList s.toList with
  | none =>
    have hindex : index [str s, str t] = .value (int (-1)) := by
      rw [index_texts, hfind]
      rfl
    refine ⟨-1, _, hindex, hlength, ?_, fun h => absurd rfl h, ?_⟩
    · exact iff_of_true rfl (Text.find?_eq_none_iff.1 hfind)
    · have hno : ¬ t.toList <+: s.toList :=
        fun h => Text.find?_eq_none_iff.1 hfind h.isInfix
      rw [hstarts, Bool.eq_false_iff.2 fun h => hno (Text.isSome_dropPrefix?_iff.1 h)]
      rfl
  | some i =>
    have hfirst := firstAt_of_find? hs hfind
    obtain ⟨hi, hhere, hbefore⟩ := Text.find?_eq_some_iff.1 hfind
    rw [String.length_toList] at hi
    -- The place is below the length of the text, so it is an integer without wrapping around.
    have htoInt : (Int64.ofNat i).toInt = i := Int64.toInt_ofNat_of_lt (by omega)
    have hzero : Int64.ofNat i = 0 ↔ t.toList <+: s.toList := by
      rw [← toInt_eq_zero_iff, htoInt]
      constructor
      · intro h
        obtain rfl : i = 0 := by omega
        exact hhere
      · intro h
        have hle : ¬ 0 < i := fun hpos => hbefore 0 hpos h
        omega
    have hindex : index [str s, str t] = .value (int (Int64.ofNat i)) := by
      rw [index_texts, hfind]
      rfl
    refine ⟨_, _, hindex, hlength, ?_, fun _ => hfirst, ?_⟩
    · refine iff_of_false (fun h => ?_) fun hno => hno ?_
      · have hneg := congrArg Int64.toInt h
        rw [htoInt] at hneg
        have hminus : (-1 : Int64).toInt = -1 := rfl
        omega
      · exact hhere.isInfix.trans (List.drop_suffix i s.toList).isInfix
    · rw [hstarts]
      congr 2
      rw [Bool.eq_iff_iff, Text.isSome_dropPrefix?_iff, decide_eq_true_iff, hzero]

/-- The second of two characters that are longer than a byte. -/
theorem index_first_wide :
    ∃ i n, index [str "aéö", str "ö"] = .value (int i) ∧ FirstAt "aéö" "ö" i n ∧ i = 2 := by
  obtain ⟨i, n, hindex, -, -, hfirst, -⟩ := index_first (s := "aéö") (by decide) "ö"
  have hi : i = 2 := by
    have htwo : index [str "aéö", str "ö"] = .value (int 2) := rfl
    rw [htwo] at hindex
    cases hindex
    rfl
  exact ⟨i, n, hindex, hfirst (by rw [hi]; decide), hi⟩

end Positions

end BlockConfig.Builtin
