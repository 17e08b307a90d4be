import BlockConfig.Text.Utf8

/-!
Backslash escapes in what programs are told to write.

A backslash and a letter stand for a control character, a backslash and octal digits for a byte. Two
dialects differ in how octal digits are introduced: in a *format* by the backslash alone, in an
*argument* by a zero after it. An escape that is none of these stands for itself.
-/

set_option autoImplicit false

namespace BlockConfig.Shell

/-- Where an escape stands. -/
inductive Dialect where
  | format | argument
deriving DecidableEq, Repr

/-- Whether a character is an octal digit. -/
def isOctal (c : Char) : Bool :=
  '0' ≤ c && c ≤ '7'

/-- The byte that a letter after a backslash stands for. -/
def controlByte? : Char → Option UInt8
  | 'a' => some 7
  | 'b' => some 8
  | 'f' => some 12
  | 'n' => some 10
  | 'r' => some 13
  | 't' => some 9
  | 'v' => some 11
  | '\\' => some 92
  | _ => none

/-- What has been read of an escape. -/
inductive Pending where
  | nothing
  | backslash
  /-- Octal digits with a value so far; `left` more may follow. -/
  | octal (value left : Nat)
deriving DecidableEq, Repr

/-- The character behind a backslash: the bytes that are complete with it, and what is pending. -/
def afterBackslash (d : Dialect) (c : Char) : List UInt8 × Pending :=
  if d = .argument ∧ c = '0' then ([], .octal 0 3)
  else if d = .format ∧ isOctal c then ([], .octal (c.toNat - '0'.toNat) 2)
  else if d = .format ∧ c = '"' then ([34], .nothing)
  else
    match controlByte? c with
    | some b => ([b], .nothing)
    | none => (92 :: Text.encode [c], .nothing)

/-- A character outside of an escape: the bytes that are complete with it, and what is pending. -/
def outside (c : Char) : List UInt8 × Pending :=
  if c = '\\' then ([], .backslash) else (Text.encode [c], .nothing)

/-- One more character behind what is pending. -/
def stepEscape (d : Dialect) (c : Char) : Pending → List UInt8 × Pending
  | .nothing => outside c
  | .backslash => afterBackslash d c
  | .octal value left =>
    if 0 < left ∧ isOctal c then ([], .octal (8 * value + (c.toNat - '0'.toNat)) (left - 1))
    else
      let (bytes, pending) := outside c
      (value.toUInt8 :: bytes, pending)

/-- What is pending at the end of a text. -/
def flush : Pending → List UInt8
  | .nothing => []
  | .backslash => [92]
  | .octal value _ => [value.toUInt8]

/-- Reads a text with escapes. -/
def unescapeFrom (d : Dialect) (pending : Pending) : List Char → List UInt8
  | [] => flush pending
  | c :: cs =>
    let (bytes, pending) := stepEscape d c pending
    bytes ++ unescapeFrom d pending cs

/-- The bytes that a text with escapes stands for. -/
def unescape (d : Dialect) (cs : List Char) : List UInt8 :=
  unescapeFrom d .nothing cs

end BlockConfig.Shell
