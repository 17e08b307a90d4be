import BlockConfig.Text.Blank
import BlockConfig.Text.Search
import BlockConfig.Token

/-!
The lexemes of the language: what one token looks like at the front of a text.

Every reader here works on a list of characters and says what it read and what is left; none of
them knows about lines, columns or what came before, so lexing can start again at any token. A
reader always leaves less than it was given (`scan_shorter`), which is why cutting a whole text into
tokens ends.

Inside a string, and in an environment reference outside of one, the text from `${` up to the
brace that closes it is kept as it stands: quotation marks, backslashes and line ends mean nothing
there. Braces are counted without regard to anything else (`closeBraces`), here and again when the
string is interpolated.
-/

set_option autoImplicit false

namespace BlockConfig

open Text

/-- Why no token could be read at a place. -/
inductive LexFault where
  | unexpectedCharacter (c : Char)
  | unterminatedComment
  | unterminatedString
  | unmatchedReference
  | unterminatedHeredoc (tag : String)
deriving DecidableEq, Repr

namespace LexFault

/-- The message of a fault. -/
def message : LexFault → String
  | unexpectedCharacter c => "Unexpected character '" ++ String.singleton c ++ "'"
  | unterminatedComment => "Unterminated block comment"
  | unterminatedString => "Unterminated string literal"
  | unmatchedReference => "Unmatched '$\x7b'"
  | unterminatedHeredoc tag =>
    "Unterminated heredoc '" ++ tag ++ "' (for a shift, write '<< " ++ tag ++ "')"

end LexFault

/-- What one token at the front of a text consists of, and the text after it. -/
structure Lexeme where
  kind : Kind
  literal : String
  delimiter : Option String
  quote : Option Char
  rest : List Char
deriving DecidableEq, Repr

namespace Lexeme

/-- A lexeme that is neither a heredoc nor a string. -/
def plain (kind : Kind) (literal : List Char) (rest : List Char) : Lexeme :=
  ⟨kind, String.ofList literal, none, none, rest⟩

/-! ## Character classes -/

/-- ASCII letters and the underscore begin an identifier. -/
def isNameStart (c : Char) : Bool :=
  c.isAlpha || c == '_'

/-- ASCII letters, digits and the underscore continue an identifier. -/
def isNameRest (c : Char) : Bool :=
  c.isAlphanum || c == '_'

/-- The three quotation marks. -/
def isQuote (c : Char) : Bool :=
  c == '"' || c == '\'' || c == '\x60'

/-! ## Braces -/

/-- The text up to the brace that closes the `depth + 1` braces already open, and the text after
that brace. -/
def closeBraces : Nat → List Char → Option (List Char × List Char)
  | _, [] => none
  | depth, '{' :: cs => (closeBraces (depth + 1) cs).map fun (inner, rest) => ('{' :: inner, rest)
  | 0, '}' :: cs => some ([], cs)
  | depth + 1, '}' :: cs => (closeBraces depth cs).map fun (inner, rest) => ('}' :: inner, rest)
  | depth, c :: cs => (closeBraces depth cs).map fun (inner, rest) => (c :: inner, rest)

/-- What the closing brace cuts apart is the whole text. -/
theorem append_of_closeBraces {depth : Nat} {cs inner rest : List Char}
    (h : closeBraces depth cs = some (inner, rest)) : cs = inner ++ '}' :: rest := by
  fun_induction closeBraces depth cs generalizing inner rest with
  | case1 => simp at h
  | case3 => simp_all
  | case2 _ _ ih | case4 _ _ ih | case5 _ _ _ _ _ _ ih =>
    obtain ⟨⟨i, r⟩, hi, he⟩ := Option.map_eq_some_iff.1 h
    simp only [Prod.mk.injEq] at he
    obtain ⟨rfl, rfl⟩ := he
    rw [ih hi, List.cons_append]

/-! ## Comments -/

/-- The text up to and including the mark that ends a block comment, and the text after it. -/
def closeComment : List Char → Option (List Char × List Char)
  | [] => none
  | '*' :: '/' :: cs => some (['*', '/'], cs)
  | c :: cs => (closeComment cs).map fun (inner, rest) => (c :: inner, rest)

/-- A comment up to the end of the line; carriage returns before the line end are not kept. -/
def lineComment (cs : List Char) : Lexeme :=
  plain .comment (dropEndWhile (· == '\r') (cs.takeWhile (· != '\n'))) (cs.dropWhile (· != '\n'))

/-- A comment between `/*` and `*/`, given the text after its opening mark. -/
def blockComment (cs : List Char) : Except LexFault Lexeme :=
  match closeComment cs with
  | none => .error .unterminatedComment
  | some (inner, rest) => .ok (plain .comment ('/' :: '*' :: inner) rest)

/-! ## Names and numbers -/

/-- The kind of a word: a keyword, a truth value or an identifier. -/
def wordKind (word : List Char) : Kind :=
  if word = "true".toList ∨ word = "false".toList then .bool
  else if word = "IF".toList then .ifWord
  else if word = "ELSEIF".toList then .elseIfWord
  else if word = "ELSE".toList then .elseWord
  else .ident

/-- The longest run of identifier characters. -/
def word (cs : List Char) : Lexeme :=
  let name := cs.takeWhile isNameRest
  plain (wordKind name) name (cs.dropWhile isNameRest)

/-- The fraction of a number: a point and at least one digit. -/
def fraction : List Char → List Char × List Char
  | '.' :: d :: cs =>
    if d.isDigit then ('.' :: d :: cs.takeWhile Char.isDigit, cs.dropWhile Char.isDigit)
    else ([], '.' :: d :: cs)
  | cs => ([], cs)

/-- The letters that introduce an exponent. -/
def isExponentMark (c : Char) : Bool :=
  c == 'e' || c == 'E'

/-- The exponent of a number: a mark, perhaps a sign, and at least one digit. -/
def exponent : List Char → List Char × List Char
  | e :: s :: cs =>
    if isExponentMark e && s.isDigit then
      (e :: s :: cs.takeWhile Char.isDigit, cs.dropWhile Char.isDigit)
    else
      match cs with
      | d :: ds =>
        if isExponentMark e && (s == '+' || s == '-') && d.isDigit then
          (e :: s :: d :: ds.takeWhile Char.isDigit, ds.dropWhile Char.isDigit)
        -- A mark without digits behind it is left in the text.
        else ([], e :: s :: cs)
      | [] => ([], e :: s :: cs)
  | cs => ([], cs)

/-- A number: digits, a fraction and an exponent, the last two optional. -/
def number (cs : List Char) : Lexeme :=
  let whole := cs.takeWhile Char.isDigit
  let f := fraction (cs.dropWhile Char.isDigit)
  let e := exponent f.2
  plain .number (whole ++ f.1 ++ e.1) e.2

/-! ## Strings and environment references -/

/-- What a backslash and one more character stand for; an escape that means nothing stays. -/
def unescape : Char → List Char
  | 'n' => ['\n']
  | 't' => ['\t']
  | 'r' => ['\r']
  | '\\' => ['\\']
  | c => if isQuote c then [c] else ['\\', c]

/-- The content of a string after its opening mark, and the text after its closing mark. `depth`
braces of an interpolation are open. -/
def stringBody (q : Char) : Nat → List Char → Option (List Char × List Char)
  | _, [] => none
  | depth + 1, c :: cs =>
    -- Inside a hole only braces count: no mark ends the string and no backslash escapes.
    let depth := if c = '{' then depth + 2 else if c = '}' then depth else depth + 1
    (stringBody q depth cs).map fun (out, rest) => (c :: out, rest)
  | 0, c :: cs =>
    if c = q then some ([], cs)
    -- Of the three kinds of string only one may go on behind the end of a line.
    else if c = '\n' ∧ q ≠ '\x60' then none
    else if c = '$' then
      match cs with
      | '{' :: cs => (stringBody q 1 cs).map fun (out, rest) => ('$' :: '{' :: out, rest)
      | cs => (stringBody q 0 cs).map fun (out, rest) => ('$' :: out, rest)
    else if c = '\\' then
      match cs with
      | [] => none
      | e :: cs => (stringBody q 0 cs).map fun (out, rest) => (unescape e ++ out, rest)
    else (stringBody q 0 cs).map fun (out, rest) => (c :: out, rest)

/-- A quoted string, given the text after its opening mark. -/
def string (q : Char) (cs : List Char) : Except LexFault Lexeme :=
  match stringBody q 0 cs with
  | none => .error .unterminatedString
  | some (out, rest) => .ok ⟨.str, String.ofList out, none, some q, rest⟩

/-- A reference to the environment, given the text after `${`. -/
def reference (cs : List Char) : Except LexFault Lexeme :=
  match closeBraces 0 cs with
  | none => .error .unmatchedReference
  | some (inner, rest) => .ok (plain .envRef (trimChars inner) rest)

/-! ## Heredocs -/

/-- Whether a line closes the heredoc with this tag; carriage returns at its end do not count. -/
def closesHeredoc (tag line : List Char) : Bool :=
  dropEndWhile (· == '\r') line == tag

/-- The tag that opens a heredoc and the text from the next line on, given the text after `<<`: an
identifier with nothing but blanks between it and the end of its line. -/
def heredocTag? (cs : List Char) : Option (List Char × List Char) :=
  match cs with
  | [] => none
  | c :: _ =>
    if isNameStart c then
      let after := cs.dropWhile isNameRest
      match after.dropWhile (· != '\n') with
      -- Without a line end there is no room for content, and the marks are a shift.
      | [] => none
      | _ :: body =>
        if (after.takeWhile (· != '\n')).all isBlank then some (cs.takeWhile isNameRest, body)
        else none
    else none

/-- A heredoc with its tag, given the text from the line after the tag on. It runs up to the first
line that closes it. The line feed before that line and carriage returns before that line feed are
not part of the content; the line feed after it is left. -/
def heredoc (tag body : List Char) : Except LexFault Lexeme :=
  let lines := splitOnChar '\n' body
  match lines.dropWhile (fun line => !closesHeredoc tag line) with
  -- No line closes the heredoc.
  | [] => .error (.unterminatedHeredoc (String.ofList tag))
  | _ :: after =>
    let content := joinWith ['\n'] (lines.takeWhile fun line => !closesHeredoc tag line)
    .ok ⟨.heredoc, String.ofList (dropEndWhile (· == '\r') content), some (String.ofList tag),
      none, after.flatMap ('\n' :: ·)⟩

/-! ## Operators and punctuation -/

/-- The operators of two characters. -/
def pairKind? : Char → Char → Option Kind
  | '=', '=' => some .eq
  | '!', '=' => some .ne
  | '<', '=' => some .le
  | '>', '=' => some .ge
  | '&', '&' => some .andAnd
  | '|', '|' => some .orOr
  | '<', '<' => some .shl
  | '>', '>' => some .shr
  | '?', '?' => some .coalesce
  | '-', '>' => some .arrow
  | _, _ => none

/-- The operators and punctuation marks of one character. -/
def singleKind? : Char → Option Kind
  | '{' => some .lbrace
  | '}' => some .rbrace
  | '[' => some .lbracket
  | ']' => some .rbracket
  | '(' => some .lparen
  | ')' => some .rparen
  | ',' => some .comma
  | '.' => some .dot
  | ':' => some .colon
  | ';' => some .semicolon
  | '=' => some .assign
  | '@' => some .atSign
  | '+' => some .plus
  | '-' => some .minus
  | '*' => some .star
  | '/' => some .slash
  | '%' => some .percent
  | '<' => some .lt
  | '>' => some .gt
  | '!' => some .bang
  | '?' => some .question
  | '&' => some .amp
  | '|' => some .pipe
  | '^' => some .caret
  | _ => none

/-- The punctuation mark or operator at the front of a text, the longer one if there are two. -/
def mark (c : Char) (cs : List Char) : Except LexFault Lexeme :=
  let single : Except LexFault Lexeme :=
    match singleKind? c with
    | some kind => .ok (plain kind [c] cs)
    | none => .error (.unexpectedCharacter c)
  match cs with
  | [] => single
  | d :: rest =>
    match pairKind? c d with
    | some kind => .ok (plain kind [c, d] rest)
    | none => single

/-! ## One token -/

/-- The lexeme at the front of a text that begins with `c`, which is no gap. -/
def scan (c : Char) (cs : List Char) : Except LexFault Lexeme :=
  if c = '#' then .ok (lineComment (c :: cs))
  else if isNameStart c then .ok (word (c :: cs))
  else if c.isDigit then .ok (number (c :: cs))
  else if isQuote c then string c cs
  else
    -- Four pairs of marks begin something longer than an operator.
    match c, cs with
    | '-', '-' :: _ => .ok (lineComment (c :: cs))
    | '/', '*' :: rest => blockComment rest
    | '$', '{' :: rest => reference rest
    | '<', '<' :: rest =>
      match heredocTag? rest with
      | some (tag, body) => heredoc tag body
      | none => mark c cs
    | _, _ => mark c cs

/-! ## What is left is an end of the text

One lemma for each reader, then the statement for any lexeme. -/

/-- What is left behind a comment is an end of the text. The lemmas below say so of everything that is read;
they are why cutting a text comes to an end. -/
theorem suffix_of_closeComment {cs inner rest : List Char}
    (h : closeComment cs = some (inner, rest)) : rest <:+ cs := by
  fun_induction closeComment cs generalizing inner rest with
  | case1 => simp at h
  | case2 cs =>
    simp only [Option.some.injEq, Prod.mk.injEq] at h
    exact h.2 ▸ (List.suffix_cons _ _).trans (List.suffix_cons _ _)
  | case3 c cs _ ih =>
    obtain ⟨⟨i, r⟩, hi, he⟩ := Option.map_eq_some_iff.1 h
    simp only [Prod.mk.injEq] at he
    obtain ⟨rfl, rfl⟩ := he
    exact (ih hi).trans (List.suffix_cons _ _)

/-- The same behind a string. -/
theorem suffix_of_stringBody {q : Char} {depth : Nat} {cs out rest : List Char}
    (h : stringBody q depth cs = some (out, rest)) : rest <:+ cs := by
  fun_induction stringBody q depth cs generalizing out rest with
  | case1 | case4 | case7 => simp at h
  | case3 =>
    simp only [Option.some.injEq, Prod.mk.injEq] at h
    exact h.2 ▸ List.suffix_cons _ _
  | case2 | case6 | case9 =>
    rename_i ih
    obtain ⟨⟨i, r⟩, hi, he⟩ := Option.map_eq_some_iff.1 h
    simp only [Prod.mk.injEq] at he
    obtain ⟨rfl, rfl⟩ := he
    exact (ih hi).trans (List.suffix_cons _ _)
  | case5 | case8 =>
    rename_i ih
    obtain ⟨⟨i, r⟩, hi, he⟩ := Option.map_eq_some_iff.1 h
    simp only [Prod.mk.injEq] at he
    obtain ⟨rfl, rfl⟩ := he
    exact ((ih hi).trans (List.suffix_cons _ _)).trans (List.suffix_cons _ _)

theorem fraction_suffix (cs : List Char) : (fraction cs).2 <:+ cs := by
  unfold fraction
  split
  · split
    · exact ((List.dropWhile_suffix _).trans (List.suffix_cons _ _)).trans (List.suffix_cons _ _)
    · exact List.suffix_rfl
  · exact List.suffix_rfl

/-- The same behind an exponent. -/
theorem exponent_suffix (cs : List Char) : (exponent cs).2 <:+ cs := by
  unfold exponent
  split
  · split
    · exact ((List.dropWhile_suffix _).trans (List.suffix_cons _ _)).trans (List.suffix_cons _ _)
    · split
      · split
        · exact (((List.dropWhile_suffix _).trans (List.suffix_cons _ _)).trans
            (List.suffix_cons _ _)).trans (List.suffix_cons _ _)
        · exact List.suffix_rfl
      · exact List.suffix_rfl
  · exact List.suffix_rfl

theorem dropWhile_cons_suffix (p : Char → Bool) {c : Char} (cs : List Char) (h : p c = true) :
    (c :: cs).dropWhile p <:+ cs := by
  rw [List.dropWhile_cons_of_pos h]
  exact List.dropWhile_suffix p

/-- The same behind a heredoc. -/
theorem suffix_of_heredoc {tag body : List Char} {l : Lexeme}
    (h : heredoc tag body = .ok l) : l.rest <:+ body := by
  unfold heredoc at h
  simp only at h
  split at h
  · simp at h
  · rename_i line after hd
    obtain rfl := Except.ok.inj h
    -- The lines, each behind a line feed, spell the text behind one line feed; cut that equation
    -- at the line that closes the heredoc.
    have key := flatMap_splitOnChar '\n' body
    rw [← List.takeWhile_append_dropWhile (p := fun line => !closesHeredoc tag line)
      (l := splitOnChar '\n' body), hd, List.flatMap_append, List.flatMap_cons] at key
    cases hb : ((splitOnChar '\n' body).takeWhile fun line => !closesHeredoc tag line).flatMap
        ('\n' :: ·) with
    | nil =>
      rw [hb] at key
      simp only [List.nil_append, List.cons_append, List.cons.injEq, true_and] at key
      exact ⟨line, key⟩
    | cons x xs =>
      rw [hb] at key
      simp only [List.cons_append, List.cons.injEq] at key
      exact ⟨xs ++ '\n' :: line, by rw [← key.2]; simp⟩

/-- The same behind the tag of one. -/
theorem suffix_of_heredocTag? {cs tag body : List Char}
    (h : heredocTag? cs = some (tag, body)) : body <:+ cs := by
  unfold heredocTag? at h
  split at h
  · simp at h
  · split at h
    · simp only at h
      split at h
      · simp at h
      · rename_i c rest _ x ys hd
        split at h
        · simp only [Option.some.injEq, Prod.mk.injEq] at h
          obtain ⟨_, rfl⟩ := h
          have h1 : ys <:+ x :: ys := List.suffix_cons _ _
          rw [← hd] at h1
          exact (h1.trans (List.dropWhile_suffix _)).trans (List.dropWhile_suffix _)
        · simp at h
    · simp at h

/-- The same behind a mark. -/
theorem suffix_of_mark {c : Char} {cs : List Char} {l : Lexeme} (h : mark c cs = .ok l) :
    l.rest <:+ cs := by
  have single : ∀ l : Lexeme, (match singleKind? c with
      | some kind => (.ok (plain kind [c] cs) : Except LexFault Lexeme)
      | none => .error (.unexpectedCharacter c)) = .ok l → l.rest <:+ cs := by
    intro l hl
    split at hl
    · obtain rfl := Except.ok.inj hl
      exact List.suffix_rfl
    · simp at hl
  unfold mark at h
  simp only at h
  split at h
  · exact single l h
  · split at h
    · obtain rfl := Except.ok.inj h
      exact List.suffix_cons _ _
    · exact single l h

/-- **A lexeme takes at least one character.** What it leaves is an end of the text behind its
first character. -/
theorem suffix_of_scan {c : Char} {cs : List Char} {l : Lexeme} (h : scan c cs = .ok l) :
    l.rest <:+ cs := by
  unfold scan at h
  split at h
  · rename_i hc
    obtain rfl := Except.ok.inj h
    exact dropWhile_cons_suffix (· != '\n') cs (by rw [hc]; rfl)
  split at h
  · rename_i hc
    obtain rfl := Except.ok.inj h
    refine dropWhile_cons_suffix isNameRest cs ?_
    -- What a word begins with may also go on in it.
    simp only [isNameStart, isNameRest, Char.isAlphanum, Bool.or_eq_true] at hc ⊢
    exact hc.imp .inl id
  split at h
  · rename_i hc
    obtain rfl := Except.ok.inj h
    exact ((exponent_suffix _).trans (fraction_suffix _)).trans (dropWhile_cons_suffix Char.isDigit cs hc)
  split at h
  · unfold string at h
    split at h
    · simp at h
    · rename_i hs
      obtain rfl := Except.ok.inj h
      exact suffix_of_stringBody hs
  split at h
  · rename_i tail _ _ _ _
    obtain rfl := Except.ok.inj h
    exact dropWhile_cons_suffix (c := '-') (· != '\n') ('-' :: tail) rfl
  · unfold blockComment at h
    split at h
    · simp at h
    · rename_i hs
      obtain rfl := Except.ok.inj h
      exact (suffix_of_closeComment hs).trans (List.suffix_cons _ _)
  · unfold reference at h
    split at h
    · simp at h
    · rename_i inner rest hs
      obtain rfl := Except.ok.inj h
      exact ⟨'{' :: inner ++ ['}'], by simp [append_of_closeBraces hs, plain]⟩
  · split at h
    · rename_i ht
      exact ((suffix_of_heredoc h).trans (suffix_of_heredocTag? ht)).trans (List.suffix_cons _ _)
    · exact suffix_of_mark h
  · exact suffix_of_mark h

theorem scan_shorter {c : Char} {cs : List Char} {l : Lexeme} (h : scan c cs = .ok l) :
    l.rest.length < (c :: cs).length :=
  Nat.lt_succ_of_le (suffix_of_scan h).length_le

end Lexeme

end BlockConfig
