/-!
Searching, cutting and replacing inside a text, on lists of characters.

Occurrences of a separator are taken from the left and do not overlap, and everything is counted in
characters. `splitOn` and `replace` are two readings of one walk over the text: joining the pieces
with the separator gives the text back, joining them with something else is a replacement.
-/

set_option autoImplicit false

namespace BlockConfig.Text

/-- What follows `p` in `cs`, if `cs` begins with `p`. -/
def dropPrefix? : List Char → List Char → Option (List Char)
  | [], cs => some cs
  | _ :: _, [] => none
  | p :: ps, c :: cs => if p = c then dropPrefix? ps cs else none

/-- Dropping a prefix leaves the rest, where there is that prefix. -/
theorem dropPrefix?_eq_some_iff {p cs rest : List Char} :
    dropPrefix? p cs = some rest ↔ cs = p ++ rest := by
  induction p generalizing cs with
  | nil => simp [dropPrefix?]
  | cons x xs ih =>
    cases cs with
    | nil => simp [dropPrefix?]
    | cons c cs =>
      by_cases h : x = c
      · simp [dropPrefix?, h, ih]
      · simp [dropPrefix?, h, Ne.symm h]

/-- The position, in characters, of the first occurrence of `needle`. -/
def find? (needle : List Char) : List Char → Option Nat
  | [] => if needle.isEmpty then some 0 else none
  | c :: cs =>
    if (dropPrefix? needle (c :: cs)).isSome then some 0 else (find? needle cs).map (· + 1)

/-- Puts a character in front of the first piece of a list of pieces. -/
def consHead (c : Char) : List (List Char) → List (List Char)
  | [] => [[c]]
  | piece :: pieces => (c :: piece) :: pieces

/-- The pieces between the occurrences of a separator. `skip` characters of the separator that has
been recognised are still to be passed over. -/
def splitFrom (sep : List Char) : Nat → List Char → List (List Char)
  | _, [] => [[]]
  | skip + 1, _ :: cs => splitFrom sep skip cs
  | 0, c :: cs =>
    if (dropPrefix? sep (c :: cs)).isSome then [] :: splitFrom sep (sep.length - 1) cs
    else consHead c (splitFrom sep 0 cs)

/-- The pieces of a text between the occurrences of a separator that is not empty. -/
def splitOn (sep cs : List Char) : List (List Char) :=
  splitFrom sep 0 cs

/-- Joins pieces with a separator between neighbours. -/
def joinWith (sep : List Char) : List (List Char) → List Char
  | [] => []
  | [piece] => piece
  | piece :: pieces => piece ++ sep ++ joinWith sep pieces

/-- Every occurrence of `old`, which is not empty, replaced by `new`, walking over the text once:
`skip` characters of a replaced occurrence are still to be passed over. -/
def replaceFrom (old new : List Char) : Nat → List Char → List Char
  | _, [] => []
  | skip + 1, _ :: cs => replaceFrom old new skip cs
  | 0, c :: cs =>
    if (dropPrefix? old (c :: cs)).isSome then new ++ replaceFrom old new (old.length - 1) cs
    else c :: replaceFrom old new 0 cs

/-- Every occurrence of `old`, which is not empty, replaced by `new`. -/
def replace (old new cs : List Char) : List Char :=
  replaceFrom old new 0 cs

/-- The two sides of the first occurrence of a character. -/
def splitOnce (sep : Char) : List Char → Option (List Char × List Char)
  | [] => none
  | c :: cs => if c = sep then some ([], cs) else (splitOnce sep cs).map fun (l, r) => (c :: l, r)

/-- The two sides of the first occurrence of a character in a string. -/
def splitStringOnce (sep : Char) (s : String) : Option (String × String) :=
  (splitOnce sep s.toList).map fun (l, r) => (String.ofList l, String.ofList r)

/-- The pieces of a text between the occurrences of one character. -/
def splitOnChar (sep : Char) : List Char → List (List Char)
  | [] => [[]]
  | c :: cs => if c = sep then [] :: splitOnChar sep cs else consHead c (splitOnChar sep cs)

theorem splitOnChar_ne_nil (sep : Char) (cs : List Char) : splitOnChar sep cs ≠ [] := by
  cases cs with
  | nil => simp [splitOnChar]
  | cons c cs =>
    rw [splitOnChar]
    split
    · simp
    · cases splitOnChar sep cs <;> simp [consHead]

/-- **Cutting loses nothing.** With the separator written in front of every piece, the pieces spell
the text behind one separator. -/
theorem flatMap_splitOnChar (sep : Char) (cs : List Char) :
    (splitOnChar sep cs).flatMap (sep :: ·) = sep :: cs := by
  induction cs with
  | nil => simp [splitOnChar]
  | cons c cs ih =>
    rw [splitOnChar]
    split
    · rename_i h
      rw [List.flatMap_cons, ih, h]
      simp
    · revert ih
      cases h : splitOnChar sep cs with
      | nil => exact absurd h (splitOnChar_ne_nil sep cs)
      | cons piece pieces => simp [consHead]

/-- One line of a text without its ending, which is a line feed or a carriage return and a line
feed. -/
def lineBody (line : List Char) : List Char :=
  if line.getLast? = some '\r' then line.dropLast else line

/-- Line `n` of a text, counted from zero, without its ending. A line that nothing ends, the last
one, keeps a carriage return. -/
def line? (n : Nat) (cs : List Char) : Option (List Char) :=
  let lines := splitOnChar '\n' cs
  match lines[n]? with
  | none => none
  | some line =>
    if n + 1 < lines.length then some (lineBody line)
    else if line.isEmpty then none else some line

end BlockConfig.Text
