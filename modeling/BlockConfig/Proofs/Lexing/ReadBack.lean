import BlockConfig.Proofs.Lexing.Holes
import BlockConfig.Proofs.Lexing.Replacing

/-!
What is written in quotation marks, as a name or in lines is read back.

The printer has three ways to write a text that is no code: between quotation marks with escapes,
bare if it is a plain name, and as a heredoc in lines of its own. The first two are read back
exactly if counting braces closes every hole of the text (`tokenize_written_iff`): inside a hole the
printer escapes nothing and the lexer undoes nothing, and both find its end in the same way. A
heredoc has no escapes, so it is the lines of the content that decide: none of them may be the tag,
or it would close the heredoc too early. What follows in the next line is then cut as if it stood
alone, further down by the lines of the heredoc (`tokenize_heredoc`).
-/

set_option autoImplicit false

namespace BlockConfig

open Text

namespace Token

/-! ## 1. Files -/

/-- The name of the file only matters for errors. -/
theorem tokenize_ok_iff {source file : String} {ts : List Token} :
    tokenize source file = .ok ts ↔ list source.toList = .ok ts := by
  rw [tokenize]
  cases list source.toList with
  | error m =>
    constructor
    · rintro ⟨⟩
    · rintro ⟨⟩
  | ok us =>
    show (Except.ok us : Except ParseError (List Token)) = .ok ts ↔ _
    rw [Except.ok.injEq, Except.ok.injEq]

/-! ## 2. Quotation marks and names -/

/-- The token that a written name is: a word if it is written bare, and a string if not. -/
def ofName (name : String) : Token :=
  if isPlainName name.toList then ⟨.ident, name, .start, none, none⟩
  else ⟨.str, name, .start, none, some '"'⟩

@[simp] theorem literal_ofName (name : String) : (ofName name).literal = name := by
  unfold ofName
  split <;> rfl

/-- A name that is written, in quotes or not, is cut as that name and the end. -/
theorem list_nameText {name : String} (h : Writable name) :
    list (nameText name).toList =
      .ok [ofName name, endOfInput (Position.behind (nameText name).toList)] := by
  unfold nameText ofName
  split
  next hp =>
    -- A plain name is an identifier, and the end of the text ends it.
    have hword : IsIdentifier name := ((isPlainName_iff name).1 hp).1
    exact (cuts_identifier .start hword).list_eq loose_nil
  next => exact (cuts_string .start rfl h).list_eq trivial

/-- **Escaping is undone by the lexer.** Between any quotation marks a text is one string with this
content, and as a name it is one word or string with this content, exactly if counting braces closes
every hole of the text. -/
theorem tokenize_written_iff (s file : String) :
    ((∀ q, Lexeme.isQuote q = true → tokenize (quoted q s) file =
        .ok [⟨.str, s, .start, none, some q⟩,
          endOfInput (Position.behind (quoted q s).toList)]) ∧
      tokenize (nameText s) file =
        .ok [ofName s, endOfInput (Position.behind (nameText s).toList)]) ↔
      Lexeme.closesHoles 0 s.toList = true := by
  constructor
  · rintro ⟨hquoted, -⟩
    have hlist := tokenize_ok_iff.1 (hquoted '"' rfl)
    exact (list_quoted_iff rfl s).1 hlist
  · intro h
    constructor
    · intro q hq
      rw [tokenize_ok_iff]
      exact (list_quoted_iff hq s).2 h
    · rw [tokenize_ok_iff]
      exact list_nameText h

/-! ## 3. Heredocs -/

/-- How far a heredoc moves what stands behind it: its lines, and on the last of them its tag. -/
def heredocShift (tag value : String) : Displacement :=
  ⟨value.toList.count '\n' + 2, tag.length⟩

/-- Behind a heredoc a text goes on where its tag ends. -/
theorem behind_heredocLines {tag value : String} (ht : Lexeme.IsTag tag.toList) :
    Position.behind ("<<" ++ tag ++ "\n" ++ value ++ "\n" ++ tag).toList =
      Position.start.moved (heredocShift tag value) := by
  have hn : '\n' ∉ tag.toList := fun hm => absurd (ht.isNameRest _ hm) (by decide)
  have hcount : tag.toList.count '\n' = 0 := List.count_eq_zero.2 hn
  -- The last line of the heredoc is its tag.
  have hlast : ∀ front : List Char,
      ((front ++ '\n' :: tag.toList).reverse.takeWhile (· != '\n')).length = tag.length := by
    intro front
    have hrun : ∀ c ∈ tag.toList.reverse, (c != '\n') = true := by
      intro c hc
      have hne : c ≠ '\n' := by
        rintro rfl
        exact hn (List.mem_reverse.1 hc)
      simpa using hne
    rw [List.reverse_append, List.reverse_cons, List.append_assoc,
      List.takeWhile_append_of_pos hrun, List.singleton_append,
      List.takeWhile_cons_of_neg (by decide), List.append_nil, List.length_reverse,
      String.length_toList]
  have htext : ("<<" ++ tag ++ "\n" ++ value ++ "\n" ++ tag).toList =
      ('<' :: '<' :: (tag.toList ++ '\n' :: value.toList)) ++ '\n' :: tag.toList := by
    rw [toList_heredocLines]
    simp
  rw [htext, Position.behind, hlast, Position.moved, heredocShift]
  simp [Position.start, hcount]

/-- What stands behind a heredoc, from the end of its last line on, is cut as if it stood alone, or
refused for the same reason. -/
theorem list_heredocLines {tag value : String} (ht : Lexeme.IsTag tag.toList)
    (hf : Lexeme.FitsHeredoc tag.toList value.toList) {rest : List Char} (hr : Ends rest) :
    list (("<<" ++ tag ++ "\n" ++ value ++ "\n" ++ tag).toList ++ rest) =
      ((list rest).map fun ts => ⟨.heredoc, value, .start, some tag, none⟩ ::
          ts.map (moved (heredocShift tag value))).mapError
        fun e => ⟨e.fault, e.pos.moved (heredocShift tag value)⟩ := by
  rw [list, (cuts_heredocLines .start ht hf).cut rest hr, Position.start_advance,
    behind_heredocLines ht, listFrom_moved _ (Nat.le_refl 1), list]
  cases listFrom .start rest <;> rfl

/-- Nothing but the end of input stands on the first line of a text that begins with a line feed, if
anything does. -/
theorem eq_endOfInput_of_ends {cs : List Char} {ts : List Token} (hcs : Ends cs)
    (h : list cs = .ok ts) : ∀ t ∈ ts, t.pos.line = 1 → t = endOfInput .start := by
  intro t ht hline
  cases cs with
  | nil =>
    have hts : [endOfInput .start] = ts := Except.ok.inj ((listFrom_nil .start).symm.trans h)
    rw [← hts] at ht
    exact List.mem_singleton.1 ht
  | cons c cs =>
    -- Behind the line feed no token stands above the second line.
    obtain rfl : c = '\n' := hcs c rfl
    rw [list, listFrom_gap rfl] at h
    have hbelow := (listed_of_listFrom h).line_le t ht
    have hsecond : (Position.start.next '\n').line = 2 := rfl
    omega

/-- **Heredocs are read back exactly.** A content that does not end in a carriage return, and no
line of which is the tag followed by carriage returns only, is the content of one token, and what
follows from the end of the last line on keeps its tokens. They stand further down by the lines of
the heredoc; the tag only moves what stands on its own line, which is nothing but an end of
input. -/
theorem tokenize_heredoc {tag value rest file file' : String} (ht : Lexeme.IsTag tag.toList)
    (hf : Lexeme.FitsHeredoc tag.toList value.toList) (hr : Ends rest.toList) {ts : List Token}
    (h : tokenize rest file = .ok ts) :
    tokenize ("<<" ++ tag ++ "\n" ++ value ++ "\n" ++ tag ++ rest) file' =
        .ok (⟨.heredoc, value, .start, some tag, none⟩ ::
          ts.map (moved (heredocShift tag value))) ∧
      ∀ t ∈ ts, t.pos.line = 1 → t = endOfInput .start := by
  rw [tokenize_ok_iff] at h
  constructor
  · rw [tokenize_ok_iff, String.toList_append, list_heredocLines ht hf hr, h]
    rfl
  · exact eq_endOfInput_of_ends hr h

/-- A content with a line that is the tag and a blank, which does not close the heredoc, and with an
empty line at its end, which is not lost. -/
theorem tokenize_heredoc_nearMiss :
    tokenize "<<END\nEND \n\nEND\nx" "some.bcl" =
      .ok [⟨.heredoc, "END \n", .start, some "END", none⟩, ⟨.ident, "x", ⟨5, 1⟩, none, none⟩,
        endOfInput ⟨5, 2⟩] := by
  have ht : Lexeme.IsTag "END".toList :=
    ⟨'E', ['N', 'D'], rfl, rfl, List.all_eq_true.1 rfl⟩
  have hlines : splitOnChar '\n' "END \n".toList = ["END ".toList, []] := rfl
  have hf : Lexeme.FitsHeredoc "END".toList "END \n".toList := by
    constructor
    · rw [hlines]
      exact List.forall_mem_cons.2 ⟨rfl, List.forall_mem_singleton.2 rfl⟩
    · rintro c ⟨⟩
      decide
  have hr : Ends "\nx".toList := by
    rintro c ⟨⟩
    rfl
  have hrest : tokenize "\nx" "some.bcl" =
      .ok [⟨.ident, "x", ⟨2, 1⟩, none, none⟩, endOfInput ⟨2, 2⟩] :=
    tokenize_ok_iff.2 (listFrom_step rfl rfl rfl (listFrom_nil _))
  exact (@tokenize_heredoc "END" "END \n" "\nx" "some.bcl" "some.bcl" ht hf hr _ hrest).1

end Token

end BlockConfig
