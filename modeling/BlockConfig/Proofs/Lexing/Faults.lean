import BlockConfig.Proofs.Lexing.Restarting

/-!
Where a text cannot be read.

The lexer stops at a place that it has reached by whole tokens and gaps (`Token.Reached`), and what begins
there is what its fault names: a character that begins nothing, or a comment, a string, a reference or a
heredoc that nothing closes (`LexFault.Opens`). So the fault is at the beginning of what is wrong, however
far the lexer had to look to find that out (`Token.reached_of_list_error`).

An error shows the line of its place. Lines are counted by the lexer, which goes from character to
character, and counted again where the error is made, which cuts the whole text at line feeds. Both count
the line feeds in front of the place (`Text.lineAt_line?`).
-/

set_option autoImplicit false

namespace BlockConfig

open Text

/-! ## 1. Lines -/

namespace Text

/-- What stands between a line and the text behind it: a line feed, with a carriage return in front of it if
there is one, or nothing at the end of the text. -/
inductive Ending (line : List Char) : List Char → List Char → Prop
  | feed {after : List Char} (h : line.getLast? ≠ some '\r') : Ending line ['\n'] after
  | returnFeed {after : List Char} : Ending line ['\r', '\n'] after
  | none : Ending line [] []

/-- The place `n` of a text is on a line. The line begins behind the last line feed in front of the place or
at the beginning of the text, and its ending is not part of it. -/
def LineAt (cs : List Char) (n : Nat) (line : List Char) : Prop :=
  ∃ before front ending after, cs.take n = before ++ front ∧ (before = [] ∨ EndsLine before) ∧
    '\n' ∉ front ∧ cs = before ++ (line ++ (ending ++ after)) ∧ '\n' ∉ line ∧
      Ending line ending after

/-- A text in front of a place: whole lines, and the line of the place as far as it goes. -/
theorem exists_lines_append (cs : List Char) :
    ∃ before front, cs = before ++ front ∧ (before = [] ∨ EndsLine before) ∧ '\n' ∉ front := by
  induction cs using List.reverseRecOn with
  | nil => exact ⟨[], [], rfl, .inl rfl, List.not_mem_nil⟩
  | append_singleton cs c ih =>
    by_cases hc : c = '\n'
    · subst hc
      exact ⟨cs ++ ['\n'], [], (List.append_nil _).symm, .inr List.getLast?_concat,
        List.not_mem_nil⟩
    · obtain ⟨before, front, rfl, hbefore, hfront⟩ := ih
      refine ⟨before, front ++ [c], List.append_assoc _ _ _, hbefore, ?_⟩
      simpa [hfront] using Ne.symm hc

/-- A text behind a place: the rest of the line, and nothing or a line feed. -/
theorem exists_append_feed (cs : List Char) :
    ∃ back, '\n' ∉ back ∧ (cs = back ∨ ∃ after, cs = back ++ '\n' :: after) := by
  by_cases h : '\n' ∈ cs
  · obtain ⟨back, after, rfl, hback⟩ := List.eq_append_cons_of_mem h
    exact ⟨back, hback, .inr ⟨after, rfl⟩⟩
  · exact ⟨cs, h, .inl rfl⟩

section FirstLine

variable {line : List Char} (h : '\n' ∉ line)
include h

theorem line?_zero_feed (after : List Char) : line? 0 (line ++ '\n' :: after) = some (lineBody line) := by
  have hlines : splitOnChar '\n' (line ++ '\n' :: after) = line :: splitOnChar '\n' after := by
    rw [Lexeme.splitOnChar_append, Lexeme.splitOnChar_of_not_mem h]
    rfl
  have hmore : 0 < (splitOnChar '\n' after).length :=
    List.length_pos_iff.2 (splitOnChar_ne_nil '\n' after)
  simp [line?, hlines, hmore]

theorem line?_zero : (line? 0 line).getD [] = line := by
  rw [line?, Lexeme.splitOnChar_of_not_mem h]
  cases line <;> rfl

/-- The body of a line and its ending. -/
theorem exists_ending (after : List Char) :
    ∃ ending, line ++ '\n' :: after = lineBody line ++ (ending ++ after) ∧ '\n' ∉ lineBody line ∧
      Ending (lineBody line) ending after := by
  unfold lineBody
  split
  next hlast =>
    obtain ⟨front, rfl⟩ : ∃ front, line = front ++ ['\r'] :=
      ⟨_, (List.dropLast_append_getLast? _ hlast).symm⟩
    rw [List.dropLast_concat]
    refine ⟨['\r', '\n'], ?_, fun hm => h (List.mem_append_left _ hm), .returnFeed⟩
    rw [List.append_assoc]
    rfl
  next hlast => exact ⟨['\n'], rfl, h, .feed hlast⟩

end FirstLine

/-- The lines of a text behind whole lines. -/
theorem line?_of_before {before : List Char} (h : before = [] ∨ EndsLine before) (cs : List Char) :
    line? (before.count '\n') (before ++ cs) = line? 0 cs := by
  rcases h with rfl | h
  · rfl
  · exact line?_append h cs 0

/-- **The line of a place** is the one with as many lines in front of it as there are line feeds in front of
the place. -/
theorem lineAt_line? (cs : List Char) (n : Nat) :
    LineAt cs n ((line? ((cs.take n).count '\n') cs).getD []) := by
  obtain ⟨before, front, htake, hbefore, hfront⟩ := exists_lines_append (cs.take n)
  obtain ⟨back, hback, hdrop⟩ := exists_append_feed (cs.drop n)
  have hcount : (cs.take n).count '\n' = before.count '\n' := by
    rw [htake, List.count_append, List.count_eq_zero_of_not_mem hfront, Nat.add_zero]
  have hcs : cs = before ++ (front ++ cs.drop n) := by
    rw [← List.append_assoc, ← htake, List.take_append_drop]
  have hline : '\n' ∉ front ++ back := fun hm => (List.mem_append.1 hm).elim hfront hback
  have hfirst : line? ((cs.take n).count '\n') cs = line? 0 (front ++ cs.drop n) := by
    conv_lhs => rw [hcount, hcs]
    exact line?_of_before hbefore _
  rw [hfirst]
  rcases hdrop with hdrop | ⟨after, hdrop⟩
  · rw [hdrop, line?_zero hline]
    refine ⟨before, front, [], [], htake, hbefore, hfront, ?_, hline, .none⟩
    rw [hdrop] at hcs
    simpa using hcs
  · obtain ⟨ending, hending, hbody, hends⟩ := exists_ending hline after
    have happend : front ++ cs.drop n = front ++ back ++ '\n' :: after := by
      rw [hdrop, List.append_assoc]
    rw [happend, line?_zero_feed hline]
    refine ⟨before, front, ending, after, htake, hbefore, hfront, ?_, hbody, hends⟩
    rw [happend, hending] at hcs
    exact hcs

/-- The first line of a text that begins with a line and its ending. -/
theorem line?_zero_of_ending {line ending after : List Char} (hline : '\n' ∉ line)
    (h : Ending line ending after) : (line? 0 (line ++ (ending ++ after))).getD [] = line := by
  cases h with
  | feed hlast =>
    rw [List.singleton_append, line?_zero_feed hline, Option.getD_some, lineBody, if_neg hlast]
  | @returnFeed after =>
    have hreturn : '\n' ∉ line ++ ['\r'] := by simpa using hline
    have hbody : lineBody (line ++ ['\r']) = line := by simp [lineBody]
    have happend : line ++ (['\r', '\n'] ++ after) = (line ++ ['\r']) ++ '\n' :: after := by simp
    rw [happend, line?_zero_feed hreturn, Option.getD_some, hbody]
  | none => rw [List.append_nil, List.append_nil, line?_zero hline]

/-- A place has only one line. -/
theorem eq_of_lineAt {cs line : List Char} {n : Nat} (h : LineAt cs n line) :
    line = (line? ((cs.take n).count '\n') cs).getD [] := by
  obtain ⟨before, front, ending, after, htake, hbefore, hfront, hcs, hline, hends⟩ := h
  have hcount : (cs.take n).count '\n' = before.count '\n' := by
    rw [htake, List.count_append, List.count_eq_zero_of_not_mem hfront, Nat.add_zero]
  rw [hcount, hcs, line?_of_before hbefore, line?_zero_of_ending hline hends]

end Text

/-! ## 2. What cannot be read -/

/-- The text begins with what a fault is about. -/
inductive LexFault.Opens : LexFault → List Char → Prop
  | unexpectedCharacter {c : Char} {cs : List Char} (hgap : isGap c = false)
      (hc : Lexeme.MarkAt c cs) (hno : Lexeme.singleKind? c = none) :
      Opens (.unexpectedCharacter c) (c :: cs)
  | unterminatedComment {cs : List Char} (h : ¬ ['*', '/'] <:+: cs) :
      Opens .unterminatedComment ('/' :: '*' :: cs)
  | unterminatedString {q : Char} {cs : List Char} (hq : Lexeme.isQuote q = true)
      (h : Lexeme.stringBody q 0 cs = none) : Opens .unterminatedString (q :: cs)
  | unmatchedReference {cs : List Char} (h : Lexeme.closeBraces 0 cs = none) :
      Opens .unmatchedReference ('$' :: '{' :: cs)
  | unterminatedHeredoc {cs tag body : List Char} (ht : Lexeme.heredocTag? cs = some (tag, body))
      (h : ∀ line ∈ splitOnChar '\n' body, Lexeme.closesHeredoc tag line = false) :
      Opens (.unterminatedHeredoc (String.ofList tag)) ('<' :: '<' :: cs)

namespace Lexeme

variable {c : Char} {cs : List Char} {fault : LexFault}

/-- A comment that is never closed has no closing mark in it. -/
theorem not_infix_of_closeComment (h : closeComment cs = none) : ¬ ['*', '/'] <:+: cs := by
  fun_induction closeComment cs with
  | case1 => simp
  | case2 => cases h
  | case3 c cs hno ih =>
    rw [Option.map_eq_none_iff] at h
    rw [List.infix_cons_iff]
    rintro (⟨ds, hfront⟩ | hbehind)
    · obtain ⟨rfl, rfl⟩ := List.cons.inj hfront
      exact hno ds rfl rfl
    · exact ih h hbehind

theorem closeComment_eq_none (h : ¬ ['*', '/'] <:+: cs) : closeComment cs = none := by
  fun_induction closeComment cs with
  | case1 => rfl
  | case2 cs => exact absurd ⟨[], cs, rfl⟩ h
  | case3 c cs hno ih =>
    rw [Option.map_eq_none_iff]
    exact ih fun hin => h (hin.trans (List.suffix_cons c cs).isInfix)

/-- A character that is no mark begins no mark of two. -/
theorem pairKind?_eq_none (h : singleKind? c = none) (d : Char) : pairKind? c d = none := by
  unfold pairKind?
  split <;> first | rfl | simp [singleKind?] at h

/-- A mark that cannot be read is one character that is none. -/
theorem mark_error_iff : mark c cs = .error fault ↔
    singleKind? c = none ∧ fault = .unexpectedCharacter c := by
  have comm : (Except.error (.unexpectedCharacter c) : Except LexFault Lexeme) = .error fault ↔
      fault = .unexpectedCharacter c := by
    rw [Except.error.injEq, eq_comm]
  cases hs : singleKind? c with
  | none => cases cs <;> simp [mark, hs, pairKind?_eq_none hs, comm]
  | some kind =>
    refine iff_of_false (fun h => ?_) (by simp)
    cases cs with
    | nil => simp [mark, hs] at h
    | cons d ds => cases hp : pairKind? c d <;> simp [mark, hs, hp] at h

/-- A heredoc cannot be read just when no line closes it. The fault names the tag that was looked for. -/
theorem heredoc_error_iff {tag body : List Char} : heredoc tag body = .error fault ↔
    (∀ line ∈ splitOnChar '\n' body, closesHeredoc tag line = false) ∧
      fault = .unterminatedHeredoc (String.ofList tag) := by
  unfold heredoc
  simp only
  split
  next hno =>
    rw [Except.error.injEq, eq_comm (a := LexFault.unterminatedHeredoc _), iff_and_self]
    intro _ line hline
    simpa using List.dropWhile_eq_nil_iff.1 hno line hline
  next line after hdrop =>
    refine iff_of_false nofun fun hno => ?_
    have hhead := List.head?_dropWhile_not (fun line => !closesHeredoc tag line)
      (splitOnChar '\n' body)
    rw [hdrop] at hhead
    have hmem : line ∈ splitOnChar '\n' body :=
      (List.dropWhile_suffix _).subset (hdrop ▸ List.mem_cons_self)
    simp [hno.1 line hmem] at hhead

/-- **Where no token can be read, what the fault is about begins.** The cases are those of the scanner: it
fails at a string, a comment, a reference or a heredoc that does not end, and at a mark. -/
theorem opens_of_scan (hgap : isGap c = false) (h : scan c cs = .error fault) :
    fault.Opens (c :: cs) := by
  unfold scan at h
  split at h
  · cases h
  next hsharp =>
  split at h
  · cases h
  next hname =>
  split at h
  · cases h
  next hdigit =>
  split at h
  next hq =>
    unfold Lexeme.string at h
    split at h
    next hs =>
      obtain rfl := Except.error.inj h
      exact .unterminatedString hq hs
    · cases h
  next hquote =>
  have hmark : ∀ {c : Char} {cs : List Char}, isGap c = false → MarkAt c cs →
      mark c cs = .error fault → fault.Opens (c :: cs) := by
    intro c cs hgap hc hm
    obtain ⟨hno, rfl⟩ := mark_error_iff.1 hm
    exact .unexpectedCharacter hgap hc hno
  split at h
  · cases h
  · unfold Lexeme.blockComment at h
    split at h
    next hs =>
      obtain rfl := Except.error.inj h
      exact .unterminatedComment (not_infix_of_closeComment hs)
    · cases h
  · unfold Lexeme.reference at h
    split at h
    next hs =>
      obtain rfl := Except.error.inj h
      exact .unmatchedReference hs
    · cases h
  · split at h
    next ht =>
      obtain ⟨hno, rfl⟩ := heredoc_error_iff.1 h
      exact .unterminatedHeredoc ht hno
    next ht =>
      -- A shift can always be read.
      cases h
  next h1 h2 h3 h4 =>
    refine hmark hgap ⟨hsharp, by simpa using hname, by simpa using hdigit, by simpa using hquote,
      fun ds hc hcs => h1 ds hc hcs, fun ds hc hcs => h2 ds hc hcs, fun ds hc hcs => h3 ds hc hcs,
      fun ds hc hcs => absurd hcs (h4 ds hc)⟩ h

theorem singleKind?_of_isGap (h : isGap c = true) : singleKind? c = none := by
  simp only [isGap, Bool.or_eq_true, beq_iff_eq] at h
  rcases h with ((rfl | rfl) | rfl) | rfl <;> rfl

theorem markAt_of_isGap (h : isGap c = true) (cs : List Char) : MarkAt c cs := by
  simp only [isGap, Bool.or_eq_true, beq_iff_eq] at h
  rcases h with ((rfl | rfl) | rfl) | rfl <;> constructor <;>
    first | decide | exact fun _ hc => absurd hc (by decide)

/-- A gap begins no token. -/
theorem not_isGap_of_scan {l : Lexeme} (h : scan c cs = .ok l) : isGap c = false := by
  refine Bool.eq_false_iff.2 fun hgap => ?_
  have hno := singleKind?_of_isGap hgap
  rw [(markAt_of_isGap hgap cs).scan_eq, mark_error_iff.2 ⟨hno, rfl⟩] at h
  cases h

/-- **What a fault is about cannot be read,** and for this reason. Together with the converse above, a fault
and what it is about determine each other. -/
theorem scan_of_opens (h : fault.Opens (c :: cs)) :
    isGap c = false ∧ scan c cs = .error fault := by
  cases h with
  | unexpectedCharacter hgap hc hno =>
    exact ⟨hgap, hc.scan_eq.trans (mark_error_iff.2 ⟨hno, rfl⟩)⟩
  | unterminatedComment h =>
    refine ⟨rfl, ?_⟩
    show blockComment _ = _
    rw [blockComment, closeComment_eq_none h]
  | unterminatedString hq h =>
    exact ⟨not_isGap_of_isQuote hq, by rw [scan_quote hq, Lexeme.string, h]⟩
  | unmatchedReference h =>
    refine ⟨rfl, ?_⟩
    show reference _ = _
    rw [reference, h]
  | unterminatedHeredoc ht h =>
    refine ⟨rfl, ?_⟩
    rw [scan_less, ht]
    exact heredoc_error_iff.2 ⟨h, rfl⟩

end Lexeme

/-! ## 3. How far the lexer comes -/

namespace Token

/-- Cutting the text `cs` into tokens and gaps, the lexer comes by the place `n`. -/
inductive Reached (cs : List Char) : Nat → Prop
  | start : Reached cs 0
  | gap {n : Nat} (h : Reached cs n) (hn : n < cs.length) (hgap : isGap cs[n] = true) :
      Reached cs (n + 1)
  | token {s : Span} {t : Token} (h : Reached cs s.start) (read : t.ReadFrom cs s) :
      Reached cs s.stop

/-- A fault found where a token is to begin. -/
theorem listFrom_fault {c : Char} {cs : List Char} {fault : LexFault} (hc : isGap c = false)
    (h : Lexeme.scan c cs = .error fault) (pos : Position) :
    listFrom pos (c :: cs) = .error ⟨fault, pos⟩ := by
  have hg : ¬isGap c = true := by simp [hc]
  rw [listFrom_eq, List.takeWhile_cons_of_neg hg, List.dropWhile_cons_of_neg hg]
  dsimp only
  rw [h]
  rfl

/-- A fault found behind a token. -/
theorem error_of_map {read : Except (Misplaced LexFault) (List Token)}
    {f : List Token → List Token} {m : Misplaced LexFault} (h : read.map f = .error m) :
    read = .error m := by
  cases read with
  | error m' => exact congrArg Except.error (Except.error.inj h)
  | ok ts => cases h

/-- Where the lexer stops, when `front` has been passed over. -/
theorem reached_of_listFrom_error (front : List Char) {cs : List Char} {m : Misplaced LexFault}
    (hfront : Reached (front ++ cs) front.length)
    (h : listFrom (Position.behind front) cs = .error m) :
    ∃ taken rest, cs = taken ++ rest ∧ m.pos = Position.behind (front ++ taken) ∧
      m.fault.Opens rest ∧ Reached (front ++ cs) (front ++ taken).length := by
  induction hlen : cs.length using Nat.strongRecOn generalizing front cs with
  | _ k ih =>
  -- It is enough to go on behind something that the lexer passes over.
  have onward : ∀ (taken : List Char) {rest : List Char}, cs = taken ++ rest → rest.length < k →
      Reached (front ++ cs) (front ++ taken).length →
      listFrom (Position.behind (front ++ taken)) rest = .error m →
      ∃ taken rest, cs = taken ++ rest ∧ m.pos = Position.behind (front ++ taken) ∧
        m.fault.Opens rest ∧ Reached (front ++ cs) (front ++ taken).length := by
    rintro taken rest rfl hshort hreached herror
    rw [← List.append_assoc] at hreached
    obtain ⟨taken', rest', rfl, hpos, hopens, hreached'⟩ := ih _ hshort _ hreached herror rfl
    rw [List.append_assoc] at hpos
    exact ⟨taken ++ taken', rest', (List.append_assoc _ _ _).symm, hpos, hopens,
      by simpa only [List.append_assoc] using hreached'⟩
  cases cs with
  | nil =>
    rw [listFrom_nil] at h
    cases h
  | cons c cs =>
    rw [List.length_cons] at hlen
    cases hc : isGap c with
    | true =>
      rw [listFrom_gap hc] at h
      refine onward [c] rfl (by omega) ?_ ?_
      · rw [List.length_append]
        exact hfront.gap (by simp) (by simpa using hc)
      · rw [← Position.behind_advance]
        exact h
    | false =>
      cases hscan : Lexeme.scan c cs with
      | error fault =>
        rw [listFrom_fault hc hscan] at h
        obtain rfl := Except.error.inj h
        refine ⟨[], c :: cs, rfl, ?_, Lexeme.opens_of_scan hc hscan, ?_⟩
        · rw [List.append_nil]
        · rwa [List.append_nil]
      | ok l =>
        obtain ⟨taken, rfl⟩ := Lexeme.suffix_of_scan hscan
        rw [listFrom_lexeme hc hscan rfl] at h
        have hread := @readFrom_of_scan front (c :: taken) c (taken ++ l.rest) l hscan rfl
        rw [List.length_append] at hlen
        refine onward (c :: taken) rfl (by omega) ?_ ?_
        · rw [List.length_append]
          exact Reached.token hfront hread
        · rw [← Position.behind_advance]
          exact error_of_map h

/-- What stops the lexer at a place that it reaches refuses the whole text. -/
theorem Reached.list_eq_error {cs : List Char} {n : Nat} {m : Misplaced LexFault}
    (h : Reached cs n) (hm : listFrom (Position.behind (cs.take n)) (cs.drop n) = .error m) :
    list cs = .error m := by
  induction h with
  | start => exact hm
  | @gap n h hn hgap ih =>
    refine ih ?_
    rw [List.drop_eq_getElem_cons hn, listFrom_gap hgap]
    rwa [List.take_succ_eq_append_getElem hn, ← Position.behind_advance] at hm
  | @token s t h read ih =>
    refine ih ?_
    obtain ⟨c, body, l, hdrop, hscan, hrest, -⟩ := read.read
    obtain ⟨taken, rfl⟩ := Lexeme.suffix_of_scan hscan
    have hwhole : cs.take s.stop ++ cs.drop s.stop =
        (cs.take s.start ++ c :: taken) ++ cs.drop s.stop := by
      rw [List.take_append_drop, ← hrest, List.append_assoc, List.cons_append, ← hdrop,
        List.take_append_drop]
    have htake := List.append_cancel_right hwhole
    rw [hdrop, listFrom_lexeme (Lexeme.not_isGap_of_scan hscan) hscan rfl, hrest,
      Position.behind_advance, ← htake, hm]
    rfl

/-- A text is refused at a place that the lexer reaches. -/
theorem reached_of_list_error {cs : List Char} {m : Misplaced LexFault} (h : list cs = .error m) :
    ∃ n ≤ cs.length, m.pos = Position.behind (cs.take n) ∧ m.fault.Opens (cs.drop n) ∧
      Reached cs n := by
  obtain ⟨taken, rest, rfl, hpos, hopens, hreached⟩ :=
    reached_of_listFrom_error [] Reached.start h
  refine ⟨taken.length, ?_, ?_, ?_, hreached⟩
  · rw [List.length_append]
    exact Nat.le_add_right _ _
  · rwa [List.take_left]
  · rwa [List.drop_left]

/-- **A text is refused at the beginning of what cannot be read,** and every beginning of that kind is
refused if there are tokens and gaps only in front of it. -/
theorem list_eq_error_iff {cs : List Char} {m : Misplaced LexFault} : list cs = .error m ↔
    ∃ n ≤ cs.length, m.pos = Position.behind (cs.take n) ∧ m.fault.Opens (cs.drop n) ∧
      Reached cs n := by
  refine ⟨reached_of_list_error, ?_⟩
  rintro ⟨n, -, hpos, hopens, hreached⟩
  refine hreached.list_eq_error ?_
  obtain ⟨fault, pos⟩ := m
  cases hdrop : cs.drop n with
  | nil =>
    rw [hdrop] at hopens
    cases hopens
  | cons c body =>
    rw [hdrop] at hopens
    obtain ⟨hgap, hscan⟩ := Lexeme.scan_of_opens hopens
    rw [listFrom_fault hgap hscan]
    exact congrArg (fun p => Except.error (Misplaced.mk fault p)) hpos.symm

end Token

end BlockConfig
