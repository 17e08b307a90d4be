import BlockConfig.Pattern.ClassTable
import BlockConfig.Text.Blank
import BlockConfig.Text.Case
import BlockConfig.Text.Search

/-!
Patterns and the texts in which they occur.

A pattern says which stretches of a text it can cover. That is computed for all starting points at
once: the positions of a text, of which there is one more than characters, carry marks, and a
pattern turns the marks of the positions where it may begin into the marks of those where it may end
(`Pattern.run`). Repetition adds marks until nothing changes, which happens after as many rounds as
there are positions. A pattern occurs in a text if marks remain when it may begin anywhere.
-/

set_option autoImplicit false

namespace BlockConfig

namespace Pattern

/-! ## Sets of characters -/

/-- A set of characters. -/
inductive CharSet where
  | empty
  | range (first last : Nat)
  | runs (rs : List Run)
  | blank
  | union (a b : CharSet)
  | inter (a b : CharSet)
  | diff (a b : CharSet)
  | symmDiff (a b : CharSet)
  | compl (a : CharSet)
  /-- The characters of a set in any case. -/
  | anyCase (a : CharSet)
deriving Repr

/-- A code point with its case forgotten. -/
def foldCase (n : Nat) : Nat :=
  if n = 0x131 then n else Text.partner Text.lowerRuns (Text.partner Text.upperRuns n)

/-- The code points that a list of case runs may map to `n`, and `n` itself. -/
def sources (runs : List Text.CaseRun) (n : Nat) : List Nat :=
  n :: runs.filterMap fun r =>
    let m := ((n : Int) - r.distance).toNat
    if Text.partner [r] m = n then some m else none

/-- The code points that differ from `n` in case at most. -/
def caseVariants (n : Nat) : List Nat :=
  let folded := foldCase n
  ((sources Text.lowerRuns folded).flatMap (sources Text.upperRuns)).filter
    fun m => foldCase m = folded

namespace CharSet

/-- Whether a code point belongs to a set. -/
def contains : CharSet → Nat → Bool
  | empty, _ => false
  | range first last, n => first ≤ n && n ≤ last
  | runs rs, n => rs.any fun r => r.contains n
  | blank, n => Text.isBlank (Char.ofNat n)
  | union a b, n => a.contains n || b.contains n
  | inter a b, n => a.contains n && b.contains n
  | diff a b, n => a.contains n && !b.contains n
  | symmDiff a b, n => a.contains n != b.contains n
  | compl a, n => !a.contains n
  | anyCase a, n => (caseVariants n).any fun m => a.contains m

/-- The set of one code point. -/
def single (n : Nat) : CharSet :=
  range n n

/-- Every character. -/
def all : CharSet :=
  range 0 0x10FFFF

/-- The characters of words. -/
def word : CharSet :=
  runs wordRuns

/-- How many stretches of code points a set has, at most. -/
def stretches : CharSet → Nat
  | empty => 0
  | range _ _ => 1
  | runs rs => rs.foldl (fun n r => n + if r.stride = 1 then 1 else (r.last - r.first) / r.stride + 1) 0
  | blank => 10
  | union a b | inter a b | diff a b | symmDiff a b => a.stretches + b.stretches
  | compl a => a.stretches + 1
  | anyCase a => 2 * a.stretches

/-- Whether a set has characters beyond ASCII. -/
def isWide : CharSet → Bool
  | empty => false
  | range _ last => 0x80 ≤ last
  | runs _ | blank | compl _ => true
  | union a b | symmDiff a b => a.isWide || b.isWide
  | inter a b => a.isWide && b.isWide
  | diff a _ => a.isWide
  | anyCase a => a.isWide

/-- The size of an automaton that recognises one character of a set, in bytes: one state for a
character of ASCII, two for a set of them, and about two for each stretch of any other set. -/
def size : CharSet → Nat
  | range first last =>
    if first = last then 32 * (Char.ofNat first).utf8Size
    else if last < 0x80 then 72
    else 1000
  | compl a => if a.isWide then 64 + 62 * (a.stretches + 1) else 1000
  | s => if s.isWide then 64 + 62 * s.stretches else 64 + 8 * s.stretches

end CharSet

/-! ## Places -/

/-- How a place lies between words and what is around them. -/
inductive WordEdge where
  | boundary | noBoundary | start | stop
  /-- No word before the place. -/
  | startHalf
  /-- No word behind the place. -/
  | stopHalf
deriving DecidableEq, Repr

/-- A condition on a place in a text. -/
inductive Place where
  | textStart | textEnd
  | lineStart | lineEnd
  /-- Lines may also end with a carriage return or with one and a line feed. -/
  | anyLineStart | anyLineEnd
  /-- Words have the characters of Unicode, or of ASCII only. -/
  | word (edge : WordEdge) (unicode : Bool)
deriving DecidableEq, Repr

/-- Whether a character belongs to a word. -/
def isWordChar (unicode : Bool) (c : Option Char) : Bool :=
  c.any fun c => if unicode then CharSet.word.contains c.toNat else c.isAlphanum || c == '_'

/-- Whether an edge lies between two places that belong to a word or not. -/
def WordEdge.holds (e : WordEdge) (before after : Bool) : Bool :=
  match e with
  | boundary => before != after
  | noBoundary => before == after
  | start => !before && after
  | stop => before && !after
  | startHalf => !before
  | stopHalf => !after

namespace Place

/-- Whether a place between two characters, either of which may be missing, meets a condition. -/
def holds (p : Place) (before after : Option Char) : Bool :=
  match p with
  | textStart => before.isNone
  | textEnd => after.isNone
  | lineStart => before.isNone || before == some '\n'
  | lineEnd => after.isNone || after == some '\n'
  | anyLineStart =>
    before.isNone || before == some '\n' || (before == some '\r' && after != some '\n')
  | anyLineEnd => after.isNone || after == some '\r' || (after == some '\n' && before != some '\r')
  | word edge unicode => edge.holds (isWordChar unicode before) (isWordChar unicode after)

end Place

end Pattern

open Pattern

/-- Patterns. -/
inductive Pattern where
  | empty
  | char (set : CharSet)
  | place (p : Place)
  | seq (a b : Pattern)
  | alt (a b : Pattern)
  /-- At least `least` and at most `most` times; without limit if there is no `most`. -/
  | repeated (a : Pattern) (least : Nat) (most : Option Nat)
deriving Repr

namespace Pattern

/-- Positions marked in either of two lists. -/
def merge (a b : List Bool) : List Bool :=
  List.zipWith (· || ·) a b

/-- Applies a function a number of times, as long as any position is marked. -/
def iterate (f : List Bool → List Bool) : Nat → List Bool → List Bool
  | 0, marks => marks
  | n + 1, marks => if marks.any id then iterate f n (f marks) else marks

/-- Adds what a function makes of the marks, a number of times or until nothing changes. -/
def saturate (f : List Bool → List Bool) : Nat → List Bool → List Bool
  | 0, marks => marks
  | n + 1, marks =>
    let more := merge marks (f marks)
    if more = marks then marks else saturate f n more

/-- The positions of a text where a pattern may end, given those where it may begin. -/
def run (text : List Char) : Pattern → List Bool → List Bool
  | empty, marks => marks
  | char set, marks =>
    -- No character ends where the text begins.
    false :: List.zipWith (fun mark c => mark && set.contains c.toNat) marks text
  | place p, marks =>
    let befores := none :: text.map some
    let afters := text.map some ++ [none]
    List.zipWith (· && ·) marks (List.zipWith p.holds befores afters)
  | seq a b, marks => run text b (run text a marks)
  | alt a b, marks => merge (run text a marks) (run text b marks)
  | repeated a least most, marks =>
    -- The rounds that have to be made come before those that may be made.
    let start := iterate (run text a) least marks
    match most with
    | none => saturate (run text a) (text.length + 1) start
    | some most => saturate (run text a) (most - least) start

/-- Whether a pattern occurs in a text. -/
def occursIn (p : Pattern) (text : List Char) : Bool :=
  (p.run text (List.replicate (text.length + 1) true)).any id

/-- The size of an automaton for a pattern with its repetitions written out, in bytes. -/
def size : Pattern → Nat
  | empty | place _ => 32
  | char set => set.size
  | seq a b => a.size + b.size
  | alt a b => a.size + b.size + 72
  | repeated a least none => a.size * max 1 least + 40
  | repeated a least (some most) => a.size * most + 40 * (most - least) + 32

end Pattern

end BlockConfig
