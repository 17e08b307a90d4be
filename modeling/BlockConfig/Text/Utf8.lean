/-!
Bytes as text.

What a program writes need not be valid UTF-8. It is read as text all the same: bytes that form a
character become that character, and every stretch of bytes that begins like a character but is not
one becomes a single replacement character. A stretch ends before the first byte that no character
with the same beginning has at its place, and reading goes on with that byte.
-/

set_option autoImplicit false

namespace BlockConfig.Text

/-- What stands for bytes that form no character. -/
def replacement : Char := '\uFFFD'

/-- The beginning of a character: its bits so far, how many bytes are missing, and the range of the
next of them. -/
structure Owed where
  bits : Nat
  missing : Nat
  low : Nat
  high : Nat
deriving DecidableEq, Repr

/-- What the first byte of a stretch is: a character, the beginning of one, or neither. The ranges
leave out surrogates, characters beyond the last one and spellings that are too long. -/
def lead (b : Nat) : Option (Char ⊕ Owed) :=
  if b < 0x80 then some (.inl (Char.ofNat b))
  else if b < 0xC2 then none
  else if b < 0xE0 then some (.inr ⟨b - 0xC0, 1, 0x80, 0xBF⟩)
  else if b = 0xE0 then some (.inr ⟨0, 2, 0xA0, 0xBF⟩)
  else if b = 0xED then some (.inr ⟨0xD, 2, 0x80, 0x9F⟩)
  else if b < 0xF0 then some (.inr ⟨b - 0xE0, 2, 0x80, 0xBF⟩)
  else if b = 0xF0 then some (.inr ⟨0, 3, 0x90, 0xBF⟩)
  else if b < 0xF4 then some (.inr ⟨b - 0xF0, 3, 0x80, 0xBF⟩)
  else if b = 0xF4 then some (.inr ⟨4, 3, 0x80, 0x8F⟩)
  else none

/-- Reads bytes, the first of which may have to go on a character. -/
def decodeFrom : Option Owed → List UInt8 → List Char
  | none, [] => []
  | some _, [] => [replacement]
  | owed, b :: bytes =>
    let n := b.toNat
    let fresh : List Char :=
      match lead n with
      | some (.inl c) => c :: decodeFrom none bytes
      | some (.inr beginning) => decodeFrom (some beginning) bytes
      | none => replacement :: decodeFrom none bytes
    match owed with
    | none => fresh
    | some o =>
      if o.low ≤ n ∧ n ≤ o.high then
        let bits := 64 * o.bits + (n - 0x80)
        if o.missing ≤ 1 then Char.ofNat bits :: decodeFrom none bytes
        else decodeFrom (some ⟨bits, o.missing - 1, 0x80, 0xBF⟩) bytes
      -- The byte does not go on the character and may begin one of its own.
      else replacement :: fresh

/-- Bytes as text. -/
def decode (bytes : List UInt8) : String :=
  String.ofList (decodeFrom none bytes)

/-- A text as bytes. -/
def encode (cs : List Char) : List UInt8 :=
  (String.ofList cs).toUTF8.data.toList

end BlockConfig.Text
