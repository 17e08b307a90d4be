import BlockConfig.Text.CaseTable

/-!
Upper and lower case.

Each character is mapped on its own, with one exception: a capital sigma at the end of a word
becomes the final form of the small letter. A word ends there if, marks and similar characters
aside, a letter with case stands before the sigma and none after it.
-/

set_option autoImplicit false

namespace BlockConfig.Text

/-- Whether a code point lies in one of the ranges of a list. -/
def inRanges (ranges : List (Nat × Nat)) (n : Nat) : Bool :=
  ranges.any fun range => range.1 ≤ n && n ≤ range.2

/-- The partner of a code point according to a list of runs. -/
def partner (runs : List CaseRun) (n : Nat) : Nat :=
  match runs.find? fun r => r.first ≤ n && n ≤ r.last && (n - r.first) % r.stride = 0 with
  | some r => ((n : Int) + r.distance).toNat
  | none => n

/-- One character in the other case. -/
def mapCase (expansions : List (Nat × List Nat)) (runs : List CaseRun) (c : Char) : List Char :=
  match expansions.find? fun e => e.1 = c.toNat with
  | some e => e.2.map Char.ofNat
  | none => [Char.ofNat (partner runs c.toNat)]

/-- A character in upper case. -/
def upperChar (c : Char) : List Char :=
  if c.toNat < 0x80 then [c.toUpper] else mapCase upperExpansions upperRuns c

/-- A character in lower case, whatever stands around it. -/
def lowerChar (c : Char) : List Char :=
  if c.toNat < 0x80 then [c.toLower] else mapCase lowerExpansions lowerRuns c

/-- Whether a letter with case comes first, ignorable characters aside. -/
def casedFirst (cs : List Char) : Bool :=
  match cs.dropWhile fun c => inRanges caseIgnorableRanges c.toNat with
  | c :: _ => inRanges casedRanges c.toNat
  | [] => false

/-- A text in lower case; `before` is the text in front of it, backwards. -/
def lowerFrom (before : List Char) : List Char → List Char
  | [] => []
  | c :: cs =>
    let here :=
      if c = 'Σ' then [if casedFirst before && !casedFirst cs then 'ς' else 'σ'] else lowerChar c
    here ++ lowerFrom (c :: before) cs

/-- A string in upper case. -/
def upper (s : String) : String :=
  String.ofList (s.toList.flatMap upperChar)

/-- A string in lower case. -/
def lower (s : String) : String :=
  String.ofList (lowerFrom [] s.toList)

end BlockConfig.Text
