import BlockConfig.Pattern

/-!
Reading patterns.

The notation is the usual one: classes in brackets, which nest and combine, groups, alternatives,
repetition and places, with classes by Unicode properties. A few things it does not have, and a text
that uses them is no pattern: references back to a group, looking ahead or behind, octal escapes,
and a backslash in front of a letter that means nothing. A pattern that would grow too large when
its repetitions are written out is refused as well.
-/

set_option autoImplicit false

namespace BlockConfig.Pattern

/-- How the rest of a group is read. -/
structure Flags where
  ignoreCase : Bool
  multiLine : Bool
  dotAll : Bool
  anyLineEnd : Bool
  unicode : Bool
  extended : Bool
deriving DecidableEq, Repr

/-- How a pattern is read at its beginning. -/
def Flags.initial : Flags :=
  ⟨false, false, false, false, true, false⟩

/-- What is left of the text of a pattern, how it is read, and the names given to groups. -/
structure State where
  rest : List Char
  flags : Flags
  names : List String

/-! ## Small pieces -/

/-- The value of a hexadecimal digit. -/
def hexValue? (c : Char) : Option Nat :=
  if c.isDigit then some (c.toNat - '0'.toNat)
  else if 'a' ≤ c ∧ c ≤ 'f' then some (c.toNat - 'a'.toNat + 10)
  else if 'A' ≤ c ∧ c ≤ 'F' then some (c.toNat - 'A'.toNat + 10)
  else none

/-- The number that hexadecimal digits spell. -/
def hexNumber? (ds : List Char) : Option Nat :=
  if ds.isEmpty then none
  else ds.foldl (fun n c => n.bind fun n => (hexValue? c).map (16 * n + ·)) (some 0)

/-- A number that is a character's. -/
def scalar? (n : Nat) : Option Nat :=
  if n < 0xD800 ∨ (0xDFFF < n ∧ n ≤ 0x10FFFF) then some n else none

/-- Skips blanks and comments; `inside` tells whether a comment has begun. -/
def skipLayoutFrom : Bool → List Char → List Char
  | _, [] => []
  | true, c :: cs => skipLayoutFrom (c != '\n') cs
  | false, c :: cs =>
    if Text.isBlank c then skipLayoutFrom false cs
    else if c = '#' then skipLayoutFrom true cs
    else c :: cs

/-- Skips blanks and comments. -/
def skipLayout (cs : List Char) : List Char :=
  skipLayoutFrom false cs

/-- Skips blanks and comments where they do not count. -/
def Flags.skip (f : Flags) (cs : List Char) : List Char :=
  if f.extended then skipLayout cs else cs

/-- A decimal number, blanks around it aside. -/
def decimal? (cs : List Char) : Option (Nat × List Char) :=
  let cs := cs.dropWhile Text.isBlank
  let ds := cs.takeWhile Char.isDigit
  let n := ds.foldl (fun n c => 10 * n + (c.toNat - '0'.toNat)) 0
  if ds.isEmpty ∨ 4294967296 ≤ n then none
  else some (n, (cs.dropWhile Char.isDigit).dropWhile Text.isBlank)

/-- A set with the case of its characters forgotten where it does not count. Without Unicode only
the letters of ASCII have another case. -/
def Flags.close (f : Flags) (s : CharSet) : CharSet :=
  if f.ignoreCase then
    if f.unicode then .anyCase s
    else .union s (.inter (.anyCase s) (.range 0 0x7F))
  else s

/-- A set that may stand in a pattern: without Unicode only if it keeps to ASCII, since it would
cover parts of characters otherwise. -/
def Flags.admit? (f : Flags) (s : CharSet) : Option CharSet :=
  if !f.unicode && (s.contains 0x80 || s.contains 0x10FFFF) then none else some s

/-! ## Named classes -/

/-- ASCII letters. -/
def asciiAlpha : CharSet :=
  .union (.range 0x41 0x5A) (.range 0x61 0x7A)

/-- ASCII digits. -/
def asciiDigit : CharSet :=
  .range 0x30 0x39

/-- ASCII letters, digits and the underscore. -/
def asciiWord : CharSet :=
  .union (.union asciiAlpha asciiDigit) (.single 0x5F)

/-- The classes written `[:name:]`. -/
def asciiClass? (name : String) : Option CharSet :=
  if name = "alnum" then some (.union asciiAlpha asciiDigit)
  else if name = "alpha" then some asciiAlpha
  else if name = "ascii" then some (.range 0 0x7F)
  else if name = "blank" then some (.union (.single 0x09) (.single 0x20))
  else if name = "cntrl" then some (.union (.range 0 0x1F) (.single 0x7F))
  else if name = "digit" then some asciiDigit
  else if name = "graph" then some (.range 0x21 0x7E)
  else if name = "lower" then some (.range 0x61 0x7A)
  else if name = "print" then some (.range 0x20 0x7E)
  else if name = "punct" then
    some (.union (.union (.range 0x21 0x2F) (.range 0x3A 0x40))
      (.union (.range 0x5B 0x60) (.range 0x7B 0x7E)))
  else if name = "space" then some (.union (.range 0x09 0x0D) (.single 0x20))
  else if name = "upper" then some (.range 0x41 0x5A)
  else if name = "word" then some asciiWord
  else if name = "xdigit" then
    some (.union asciiDigit (.union (.range 0x41 0x46) (.range 0x61 0x66)))
  else none

/-- The class that a letter stands for behind a backslash. -/
def letterClass? (f : Flags) (c : Char) : Option CharSet :=
  let digit := if f.unicode then CharSet.runs digitRuns else asciiDigit
  let word := if f.unicode then CharSet.word else asciiWord
  let space :=
    if f.unicode then CharSet.blank else .union (.range 0x09 0x0D) (.single 0x20)
  match c with
  | 'd' => some digit
  | 'D' => some (.compl digit)
  | 'w' => some word
  | 'W' => some (.compl word)
  | 's' => some space
  | 'S' => some (.compl space)
  | _ => none

/-- Properties by name: general categories, scripts and a few others. -/
def properties : List (String × CharSet) :=
  [("l", .runs letterRuns), ("letter", .runs letterRuns),
    ("lu", .runs upperLetterRuns), ("uppercaseletter", .runs upperLetterRuns),
    ("ll", .runs lowerLetterRuns), ("lowercaseletter", .runs lowerLetterRuns),
    ("m", .runs markRuns), ("mark", .runs markRuns),
    ("n", .runs numberRuns), ("number", .runs numberRuns),
    ("nd", .runs digitRuns), ("decimalnumber", .runs digitRuns), ("digit", .runs digitRuns),
    ("p", .runs punctuationRuns), ("punctuation", .runs punctuationRuns),
    ("s", .runs symbolRuns), ("symbol", .runs symbolRuns),
    ("z", .runs separatorRuns), ("separator", .runs separatorRuns),
    ("cc", .union (.range 0 0x1F) (.range 0x7F 0x9F)),
    ("control", .union (.range 0 0x1F) (.range 0x7F 0x9F)),
    ("zs", .diff (.runs separatorRuns) (.range 0x2028 0x2029)),
    ("spaceseparator", .diff (.runs separatorRuns) (.range 0x2028 0x2029)),
    ("alphabetic", .diff CharSet.word (.union (.runs digitRuns) (.single 0x5F))),
    ("alpha", .diff CharSet.word (.union (.runs digitRuns) (.single 0x5F))),
    ("uppercase", .runs upperLetterRuns), ("upper", .runs upperLetterRuns),
    ("lowercase", .runs lowerLetterRuns), ("lower", .runs lowerLetterRuns),
    ("whitespace", .blank), ("space", .blank),
    ("any", .all), ("ascii", .range 0 0x7F),
    ("greek", .runs greekRuns), ("grek", .runs greekRuns),
    ("latin", .runs latinRuns), ("latn", .runs latinRuns),
    ("cyrillic", .runs cyrillicRuns), ("cyrl", .runs cyrillicRuns),
    ("han", .runs hanRuns), ("hani", .runs hanRuns),
    ("hiragana", .runs hiraganaRuns), ("hira", .runs hiraganaRuns),
    ("katakana", .runs katakanaRuns), ("kana", .runs katakanaRuns),
    ("arabic", .runs arabicRuns), ("arab", .runs arabicRuns),
    ("hebrew", .runs hebrewRuns), ("hebr", .runs hebrewRuns),
    ("hangul", .runs hangulRuns), ("hang", .runs hangulRuns),
    ("thai", .runs thaiRuns),
    ("devanagari", .runs devanagariRuns), ("deva", .runs devanagariRuns)]

/-- A property name without case, blanks, hyphens and underscores. -/
def plainName (cs : List Char) : String :=
  String.ofList ((cs.filter fun c => c != ' ' && c != '-' && c != '_').map Char.toLower)

/-- The class of a property of a kind. -/
def kindProperty? (kind name : List Char) : Option CharSet :=
  if ["gc", "generalcategory", "sc", "script", "scx", "scriptextensions"].contains
      (plainName kind) then
    properties.lookup (plainName name)
  else none

/-- The class of a property, written as a name, as `kind!=name`, `kind:name` or `kind=name`. -/
def property? (cs : List Char) : Option CharSet :=
  match Text.splitOn ['!', '='] cs with
  | kind :: name :: more =>
    (kindProperty? kind (Text.joinWith ['!', '='] (name :: more))).map .compl
  | _ =>
    match Text.splitOnce ':' cs with
    | some (kind, name) => kindProperty? kind name
    | none =>
      match Text.splitOnce '=' cs with
      | some (kind, name) => kindProperty? kind name
      | none => properties.lookup (plainName cs)

/-! ## Escapes -/

/-- What a backslash introduces. -/
inductive Escape where
  | char (n : Nat)
  | set (s : CharSet)
  | place (p : Place)

/-- Characters that a backslash may always stand in front of. -/
def isEscapable (c : Char) : Bool :=
  c.toNat < 0x80 && !c.isAlphanum && c != '<' && c != '>'

/-- A character by its number: in braces, or with a fixed count of digits. -/
def hexEscape? (digits : Nat) (cs : List Char) : Option (Escape × List Char) :=
  match cs with
  | '{' :: cs =>
    match cs.dropWhile (· != '}') with
    | _ :: rest =>
      ((hexNumber? (cs.takeWhile (· != '}'))).bind scalar?).map fun n => (.char n, rest)
    | [] => none
  | cs =>
    if (cs.take digits).length = digits then
      ((hexNumber? (cs.take digits)).bind scalar?).map fun n => (.char n, cs.drop digits)
    else none

/-- A character by two digits or by digits in braces. Two digits mean a byte without Unicode, and
then only one of ASCII is a character. -/
def byteEscape? (f : Flags) (cs : List Char) : Option (Escape × List Char) :=
  match hexEscape? 2 cs with
  | some (.char n, rest) =>
    if !f.unicode && 0x80 ≤ n && cs.head? != some '{' then none else some (.char n, rest)
  | other => other

/-- A class by its property, given the text after `\p` or `\P`. -/
def propertyEscape? (negated : Bool) (cs : List Char) : Option (Escape × List Char) :=
  let finish (name rest : List Char) : Option (Escape × List Char) :=
    let (inverted, name) := match name with
      | '^' :: name => (true, name)
      | name => (false, name)
    (property? name).map fun s => (.set (if negated != inverted then .compl s else s), rest)
  match cs with
  | '{' :: cs =>
    match cs.dropWhile (· != '}') with
    | _ :: rest => finish (cs.takeWhile (· != '}')) rest
    | [] => none
  | c :: cs => finish [c] cs
  | [] => none

/-- A word boundary, given the text after `\b`. -/
def boundaryEscape? (unicode : Bool) (cs : List Char) : Option (Escape × List Char) :=
  match cs with
  | '{' :: c :: cs =>
    if c.isAlpha || c == '-' then
      let name := String.ofList ((c :: cs).takeWhile fun c => c.isAlpha || c == '-')
      match (c :: cs).dropWhile fun c => c.isAlpha || c == '-' with
      | '}' :: rest =>
        if name = "start" then some (.place (.word .start unicode), rest)
        else if name = "end" then some (.place (.word .stop unicode), rest)
        else if name = "start-half" then some (.place (.word .startHalf unicode), rest)
        else if name = "end-half" then some (.place (.word .stopHalf unicode), rest)
        else none
      | _ => none
    else some (.place (.word .boundary unicode), '{' :: c :: cs)
  | cs => some (.place (.word .boundary unicode), cs)

/-- What a backslash introduces, given the text after it. -/
def escape? (f : Flags) (cs : List Char) : Option (Escape × List Char) :=
  match cs with
  | [] => none
  | c :: cs =>
    match letterClass? f c with
    | some s => some (.set s, cs)
    | none =>
      if isEscapable c then some (.char c.toNat, cs)
      else
        match c with
        | 'a' => some (.char 0x07, cs)
        | 'f' => some (.char 0x0C, cs)
        | 't' => some (.char 0x09, cs)
        | 'n' => some (.char 0x0A, cs)
        | 'r' => some (.char 0x0D, cs)
        | 'v' => some (.char 0x0B, cs)
        | 'A' => some (.place .textStart, cs)
        | 'z' => some (.place .textEnd, cs)
        | 'b' => boundaryEscape? f.unicode cs
        | 'B' => some (.place (.word .noBoundary f.unicode), cs)
        | '<' => some (.place (.word .start f.unicode), cs)
        | '>' => some (.place (.word .stop f.unicode), cs)
        | 'x' => byteEscape? f cs
        | 'u' => hexEscape? 4 cs
        | 'U' => hexEscape? 8 cs
        | 'p' => if f.unicode then propertyEscape? false cs else none
        | 'P' => if f.unicode then propertyEscape? true cs else none
        | _ => none

/-! ## Classes in brackets -/

/-- One item of a class: a character or a set. -/
def classItem? (f : Flags) (cs : List Char) : Option (Sum Nat CharSet × List Char) :=
  match cs with
  | [] => none
  | '\\' :: cs =>
    match escape? f cs with
    | some (.char n, rest) => if !f.unicode && 0x80 ≤ n then none else some (.inl n, rest)
    | some (.set s, rest) => some (.inr s, rest)
    | _ => none
  | c :: cs => if !f.unicode && 0x80 ≤ c.toNat then none else some (.inl c.toNat, cs)

/-- The set of an item. -/
def itemSet : Sum Nat CharSet → CharSet
  | .inl n => .single n
  | .inr s => s

/-- An item of a class or a range of characters. -/
def classRange? (f : Flags) (cs : List Char) : Option (CharSet × List Char) :=
  match classItem? f cs with
  | none => none
  | some (first, rest) =>
    match f.skip rest with
    | [] => none
    | '-' :: after =>
      match f.skip after with
      | [] => none
      -- A hyphen before the bracket or before another hyphen stands for itself.
      | ']' :: _ => some (itemSet first, f.skip rest)
      | '-' :: _ => some (itemSet first, f.skip rest)
      | after =>
        match first, classItem? f after with
        | .inl a, some (.inl b, rest) => if a ≤ b then some (.range a b, rest) else none
        | _, _ => none
    | rest => some (itemSet first, rest)

/-- A class written `[:name:]`, given the text after its bracket. -/
def namedClass? (cs : List Char) : Option (CharSet × List Char) :=
  match cs with
  | ':' :: cs =>
    let (negated, cs) := match cs with
      | '^' :: cs => (true, cs)
      | cs => (false, cs)
    match cs.dropWhile (· != ':') with
    | ':' :: ']' :: rest =>
      (asciiClass? (String.ofList (cs.takeWhile (· != ':')))).map fun s =>
        (if negated then .compl s else s, rest)
    | _ => none
  | _ => none

/-- Operations between the parts of a class. -/
inductive ClassOp where
  | inter | diff | symmDiff
deriving DecidableEq, Repr

/-- The class so far with its next part. -/
def combine (f : Flags) (before : Option (CharSet × ClassOp)) (part : CharSet) : CharSet :=
  match before with
  | none => f.close part
  | some (a, .inter) => .inter a (f.close part)
  | some (a, .diff) => .diff a (f.close part)
  | some (a, .symmDiff) => .symmDiff a (f.close part)

/-- The hyphens at the beginning of a class, which stand for themselves. -/
def leadingHyphens (f : Flags) : Nat → List Char → CharSet → List Char × CharSet
  | n + 1, '-' :: cs, part => leadingHyphens f n (f.skip cs) (.union part (.single 0x2D))
  | _, cs, part => (cs, part)

mutual

/-- A class, given the text after its opening bracket. -/
def bracket? : Nat → Flags → List Char → Option (CharSet × List Char)
  | 0, _, _ => none
  | n + 1, f, cs =>
    let cs := f.skip cs
    let (negated, cs) := match cs with
      | '^' :: cs => (true, f.skip cs)
      | cs => (false, cs)
    let (cs, part) := leadingHyphens f cs.length cs .empty
    let (cs, part) := match cs, part with
      | ']' :: cs, .empty => (cs, CharSet.single 0x5D)
      | cs, part => (cs, part)
    (classParts? n f none part cs).map fun (s, rest) => (if negated then .compl s else s, rest)

/-- The rest of a class: `before` is what stands in front of the last operation, `part` what has
been read since. -/
def classParts? : Nat → Flags → Option (CharSet × ClassOp) → CharSet → List Char →
    Option (CharSet × List Char)
  | 0, _, _, _, _ => none
  | n + 1, f, before, part, cs =>
    match f.skip cs with
    | [] => none
    | ']' :: rest => some (combine f before part, rest)
    | '[' :: rest =>
      match namedClass? rest with
      | some (s, rest) => classParts? n f before (.union part s) rest
      | none =>
        match bracket? n f rest with
        | some (s, rest) => classParts? n f before (.union part s) rest
        | none => none
    | '&' :: '&' :: rest => classParts? n f (some (combine f before part, .inter)) .empty rest
    | '-' :: '-' :: rest => classParts? n f (some (combine f before part, .diff)) .empty rest
    | '~' :: '~' :: rest => classParts? n f (some (combine f before part, .symmDiff)) .empty rest
    | cs =>
      match classRange? f cs with
      | some (s, rest) => classParts? n f before (.union part s) rest
      | none => none

end

/-! ## Groups and flags -/

/-- One flag switched on or off. -/
def setFlag? (f : Flags) (c : Char) (on : Bool) : Option Flags :=
  match c with
  | 'i' => some { f with ignoreCase := on }
  | 'm' => some { f with multiLine := on }
  | 's' => some { f with dotAll := on }
  | 'R' => some { f with anyLineEnd := on }
  | 'u' => some { f with unicode := on }
  | 'x' => some { f with extended := on }
  | 'U' => some f
  | _ => none

/-- Flags up to a colon or a closing parenthesis, each at most once; `off` after a hyphen. -/
def flags? : Flags → Bool → List Char → List Char → Option (Flags × List Char)
  | _, _, _, [] => none
  | f, off, seen, c :: cs =>
    if c = ':' ∨ c = ')' then
      if off ∧ seen.head? = some '-' then none else some (f, c :: cs)
    else if seen.contains c then none
    else if c = '-' then flags? f true (c :: seen) cs
    else
      match setFlag? f c (!off) with
      | some f => flags? f off (c :: seen) cs
      | none => none

/-- The name of a group up to its closing bracket. -/
def groupName? (cs : List Char) : Option (String × List Char) :=
  let name := cs.takeWhile (· != '>')
  match name, cs.dropWhile (· != '>') with
  | c :: more, _ :: rest =>
    if (c == '_' || CharSet.contains (.runs letterRuns) c.toNat) &&
        more.all fun c => c == '_' || c == '.' || c == '[' || c == ']' ||
          CharSet.contains (.runs letterRuns) c.toNat || CharSet.contains (.runs numberRuns) c.toNat
    then some (String.ofList name, rest)
    else none
  | _, _ => none

/-- How a group begins: a change of flags for what follows, or the flags inside it. -/
inductive GroupStart where
  | change (f : Flags)
  | inside (f : Flags)

/-- The beginning of a group, given the text after its parenthesis. -/
def groupStart? (s : State) : Option (GroupStart × State) :=
  let named (cs : List Char) : Option (GroupStart × State) :=
    match groupName? cs with
    | some (name, rest) =>
      if s.names.contains name then none
      else some (.inside s.flags, { s with rest := rest, names := name :: s.names })
    | none => none
  match s.rest with
  | '?' :: 'P' :: '<' :: cs => named cs
  | '?' :: '<' :: '=' :: _ => none
  | '?' :: '<' :: '!' :: _ => none
  | '?' :: '<' :: cs => named cs
  | '?' :: cs =>
    match flags? s.flags false [] cs with
    | some (f, ')' :: rest) =>
      if cs.head? = some ')' then none else some (.change f, { s with rest := rest })
    | some (f, _ :: rest) => some (.inside f, { s with rest := rest })
    | _ => none
  | _ => some (.inside s.flags, s)

/-! ## Patterns -/

/-- A repetition in braces, given the text after the opening brace: its limits. -/
def counts? (cs : List Char) : Option (Nat × Option Nat × List Char) :=
  match decimal? cs with
  | none => none
  | some (least, '}' :: rest) => some (least, some least, rest)
  | some (least, ',' :: rest) =>
    match rest.dropWhile Text.isBlank with
    | '}' :: rest => some (least, none, rest)
    | rest =>
      match decimal? rest with
      | some (most, '}' :: rest) => if least ≤ most then some (least, some most, rest) else none
      | _ => none
  | _ => none

/-- A question mark behind a repetition, which changes nothing about where the pattern occurs. -/
def dropLazy : List Char → List Char
  | '?' :: cs => cs
  | cs => cs

/-- A place at the beginning or end of a line or of the text. -/
def edge (f : Flags) (text line anyLine : Place) : Pattern :=
  .place (if f.multiLine then (if f.anyLineEnd then anyLine else line) else text)

/-- Any character but the ends of lines. -/
def anyOnLine (f : Flags) : CharSet :=
  if f.dotAll then .all
  else if f.anyLineEnd then .compl (.union (.single 0x0A) (.single 0x0D))
  else .compl (.single 0x0A)

mutual

/-- Alternatives, up to a closing parenthesis or the end. -/
def alternatives? : Nat → State → Option (Pattern × State)
  | 0, _ => none
  | n + 1, s =>
    match sequence? n .empty none s with
    | none => none
    | some (p, s) =>
      match s.rest with
      | '|' :: rest =>
        (alternatives? n { s with rest := rest }).map fun (q, s) => (.alt p q, s)
      | _ => some (p, s)

/-- Items one after another: `done` has been read, `last` is the item that a repetition would
apply to. -/
def sequence? : Nat → Pattern → Option Pattern → State → Option (Pattern × State)
  | 0, _, _, _ => none
  | n + 1, done, last, s =>
    let before := match last with
      | none => done
      | some p => .seq done p
    let item (p : Pattern) (rest : List Char) : Option (Pattern × State) :=
      sequence? n before (some p) { s with rest := rest }
    let setItem (set : CharSet) (rest : List Char) : Option (Pattern × State) :=
      match s.flags.admit? set with
      | some set => item (.char set) rest
      | none => none
    let again (least : Nat) (most : Option Nat) (rest : List Char) : Option (Pattern × State) :=
      match last with
      | none => none
      | some p => sequence? n done (some (.repeated p least most)) { s with rest := rest }
    match s.flags.skip s.rest with
    | [] => some (before, { s with rest := [] })
    | ')' :: rest => some (before, { s with rest := ')' :: rest })
    | '|' :: rest => some (before, { s with rest := '|' :: rest })
    | '?' :: rest => again 0 (some 1) (dropLazy rest)
    | '*' :: rest => again 0 none (dropLazy rest)
    | '+' :: rest => again 1 none (dropLazy rest)
    | '{' :: rest =>
      match counts? rest with
      | some (least, most, rest) => again least most (dropLazy (s.flags.skip rest))
      | none => none
    | '(' :: rest =>
      match groupStart? { s with rest := rest } with
      | none => none
      -- A change of flags holds up to the end of the group around it.
      | some (.change f, s) => sequence? n before none { s with flags := f }
      | some (.inside f, inner) =>
        match alternatives? n { inner with flags := f } with
        | some (p, ⟨')' :: rest, _, names⟩) =>
          sequence? n before (some p) ⟨rest, s.flags, names⟩
        | _ => none
    | '[' :: rest =>
      match bracket? n s.flags rest with
      | some (set, rest) => setItem set rest
      | none => none
    | '.' :: rest => setItem (anyOnLine s.flags) rest
    | '^' :: rest => item (edge s.flags .textStart .lineStart .anyLineStart) rest
    | '$' :: rest => item (edge s.flags .textEnd .lineEnd .anyLineEnd) rest
    | '\\' :: rest =>
      match escape? s.flags rest with
      | some (.char c, rest) => item (.char (s.flags.close (.single c))) rest
      | some (.set set, rest) => setItem (s.flags.close set) rest
      | some (.place p, rest) => item (.place p) rest
      | none => none
    | c :: rest => item (.char (s.flags.close (.single c.toNat))) rest

end

/-- The size up to which patterns are accepted, in bytes: ten mebibytes. -/
def sizeLimit : Nat := 10 * 1024 * 1024

/-- The pattern that a text spells. -/
def parse? (text : List Char) : Option Pattern :=
  match alternatives? (4 * text.length + 4) ⟨text, .initial, []⟩ with
  | some (p, ⟨[], _, _⟩) => if p.size ≤ sizeLimit then some p else none
  | _ => none

end BlockConfig.Pattern
