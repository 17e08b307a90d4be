import BlockConfig.Text.Search

/-!
Scripts of a shell, read into commands.

A script is a list of pipelines. Between two of them stands a semicolon or the end of a line, and
the second runs in any case, or a sign that makes it depend on how the first one ended. A pipeline
is a list of simple commands, and a simple command consists of words and of redirections.

A word is made of parts: text, and variables that get their values when the command runs. Quotation
marks keep a word together and do not appear in it.
-/

set_option autoImplicit false

namespace BlockConfig.Shell

/-- A part of a word: text, or a variable. What an unquoted variable holds is split at blanks. -/
inductive Part where
  | text (cs : List Char)
  | variable (name : String) (quoted : Bool)
deriving DecidableEq, Repr

/-- A word before its variables have got their values. -/
abbrev Word : Type := List Part

/-- What separates words. -/
inductive Sign where
  | next | andThen | orElse | pipe | less
  /-- Output number `source` goes to a file. -/
  | toFile (source : Nat)
  /-- Output number `source` goes where another one goes. -/
  | toOutput (source target : Nat)
deriving DecidableEq, Repr

/-- Words and what separates them. -/
inductive Token where
  | word (w : Word)
  | sign (s : Sign)
deriving DecidableEq, Repr

/-- Whether a character may occur in the name of a variable. -/
def isNameChar (c : Char) : Bool :=
  c.isAlphanum || c == '_'

/-- Reads the variable after a dollar sign: its name, and the text after it. -/
def readVariable? : List Char → Option (String × List Char)
  | '\x7b' :: rest =>
    match rest.span fun c => c != '\x7d' with
    | (name, _ :: rest) => some (String.ofList name, rest)
    | _ => none
  | c :: rest =>
    if c = '?' ∨ c = '$' ∨ c = '#' ∨ c.isDigit then some (c.toString, rest)
    else if isNameChar c then
      some (String.ofList (c :: rest.takeWhile isNameChar), rest.dropWhile isNameChar)
    else none
  | [] => none

/-- Adds a part to a word. -/
def Word.push (w : Option Word) (p : Part) : Option Word :=
  some (w.getD [] ++ [p])

/-- The sign at the beginning of a text, and the text after it. -/
def readSign? : List Char → Option (Sign × List Char)
  | ';' :: rest | '\n' :: rest => some (.next, rest)
  | '&' :: '&' :: rest => some (.andThen, rest)
  | '|' :: '|' :: rest => some (.orElse, rest)
  | '|' :: rest => some (.pipe, rest)
  | '<' :: rest => some (.less, rest)
  | '>' :: '&' :: '1' :: rest => some (.toOutput 1 1, rest)
  | '>' :: '&' :: '2' :: rest => some (.toOutput 1 2, rest)
  | '1' :: '>' :: '&' :: '2' :: rest => some (.toOutput 1 2, rest)
  | '2' :: '>' :: '&' :: '1' :: rest => some (.toOutput 2 1, rest)
  | '1' :: '>' :: rest => some (.toFile 1, rest)
  | '2' :: '>' :: rest => some (.toFile 2, rest)
  | '>' :: rest => some (.toFile 1, rest)
  | _ => none

/-- Reads a script; `quoted` tells whether it is inside double quotes, `w` is the word being read,
and `n` bounds the number of steps. -/
def readTokens? : Nat → Bool → Option Word → List Char → Option (List Token)
  | 0, _, _, _ => none
  | _ + 1, true, _, [] => none
  | _ + 1, false, w, [] => some (w.map Token.word).toList
  | n + 1, true, w, c :: rest =>
    if c = '"' then readTokens? n false w rest
    else if c = '\\' then
      match rest with
      | d :: more =>
        if d = '"' ∨ d = '\\' ∨ d = '$' then
          readTokens? n true (Word.push w (.text [d])) more
        else readTokens? n true (Word.push w (.text ['\\'])) rest
      | [] => none
    else if c = '$' then
      match readVariable? rest with
      | some (name, more) => readTokens? n true (Word.push w (.variable name true)) more
      | none => readTokens? n true (Word.push w (.text ['$'])) rest
    else readTokens? n true (Word.push w (.text [c])) rest
  | n + 1, false, w, c :: rest =>
    let ended (ts : List Token) : List Token := (w.map Token.word).toList ++ ts
    match (if w.isNone ∨ ¬ c.isDigit then readSign? (c :: rest) else none) with
    | some (s, more) => (readTokens? n false none more).map fun ts => ended (.sign s :: ts)
    | none =>
      if c = ' ' ∨ c = '\t' then (readTokens? n false none rest).map ended
      else if c = '#' ∧ w.isNone then
        readTokens? n false none (rest.dropWhile fun d => d != '\n')
      else if c = '"' then readTokens? n true (Word.push w (.text [])) rest
      else if c = '\'' then
        match rest.span fun d => d != '\'' with
        | (cs, _ :: more) => readTokens? n false (Word.push w (.text cs)) more
        | _ => none
      else if c = '\\' then
        match rest with
        | d :: more => readTokens? n false (Word.push w (.text [d])) more
        | [] => none
      else if c = '$' then
        match readVariable? rest with
        | some (name, more) => readTokens? n false (Word.push w (.variable name false)) more
        | none => readTokens? n false (Word.push w (.text ['$'])) rest
      else readTokens? n false (Word.push w (.text [c])) rest

/-- The words and signs of a script. -/
def tokens? (script : String) : Option (List Token) :=
  readTokens? (script.length + 1) false none script.toList

/-- A redirection of an output or of the input. -/
inductive Redirection where
  | input (file : Word)
  | toFile (source : Nat) (file : Word)
  | toOutput (source target : Nat)
deriving DecidableEq, Repr

/-- A simple command. -/
structure Simple where
  words : List Word
  redirections : List Redirection
deriving DecidableEq, Repr, Inhabited

/-- When a pipeline runs: in any case, or depending on how the one before it ended. -/
inductive Condition where
  | always | afterSuccess | afterFailure
deriving DecidableEq, Repr

/-- When the pipeline after a sign runs, if the sign ends one. -/
def Sign.condition? : Sign → Option Condition
  | next => some .always
  | andThen => some .afterSuccess
  | orElse => some .afterFailure
  | pipe | less | toFile _ | toOutput _ _ => none

/-- The pipelines of a script. -/
abbrev Script : Type := List (Condition × List Simple)

/-- Reads tokens into pipelines, given the condition and the commands of the pipeline that is being
read. -/
def readScript (condition : Condition) (done : List Simple) (here : Simple) :
    List Token → Option Script
  | [] => some [(condition, done ++ [here])]
  | .sign .less :: .word w :: ts =>
    readScript condition done ⟨here.words, here.redirections ++ [.input w]⟩ ts
  | .sign (.toFile source) :: .word w :: ts =>
    readScript condition done ⟨here.words, here.redirections ++ [.toFile source w]⟩ ts
  | .sign (.toOutput source target) :: ts =>
    readScript condition done ⟨here.words, here.redirections ++ [.toOutput source target]⟩ ts
  | .sign .pipe :: ts => readScript condition (done ++ [here]) default ts
  | .sign s :: ts =>
    match s.condition? with
    | some following =>
      (readScript following [] default ts).map fun more => (condition, done ++ [here]) :: more
    | none => none
  | .word w :: ts => readScript condition done ⟨here.words ++ [w], here.redirections⟩ ts

/-- The pipelines of a script, if it can be read. -/
def parse? (script : String) : Option Script :=
  (tokens? script).bind (readScript .always [] default)

end BlockConfig.Shell
