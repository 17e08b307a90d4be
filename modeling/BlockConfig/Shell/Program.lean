import BlockConfig.Decimal.Reader
import BlockConfig.Host
import BlockConfig.Shell.Escape

/-!
Programs.

A program gets its arguments, its input and a directory to start in, and may look at the host. It
leaves what it wrote to its two outputs, and a way of ending: a status, which is zero for success,
or the signal that stopped it.
-/

set_option autoImplicit false

namespace BlockConfig.Shell

/-- How a program ends. -/
inductive Ending where
  | status (code : Nat)
  | signal (number : Nat) (name : String)
deriving DecidableEq, Repr

namespace Ending

/-- The words for an ending. -/
def text : Ending → String
  | status code => "exit status: " ++ code.repr
  | signal number name => "signal: " ++ number.repr ++ " (" ++ name ++ ")"

/-- The status that a shell sees. -/
def code : Ending → Nat
  | status code => code
  | signal number _ => 128 + number

end Ending

/-- What a program leaves. -/
structure Outcome where
  output : List UInt8
  errors : List UInt8
  ending : Ending
deriving DecidableEq, Repr

namespace Outcome

/-- Something written and a success. -/
def wrote (output : List UInt8) : Outcome :=
  ⟨output, [], .status 0⟩

/-- Nothing but a status. -/
def silent (code : Nat) : Outcome :=
  ⟨[], [], .status code⟩

/-- A complaint and a status. -/
def complaint (message : String) (code : Nat) : Outcome :=
  ⟨[], Text.encode (message ++ "\n").toList, .status code⟩

end Outcome

/-- What a program is started with. -/
structure Start where
  host : Host
  directory : String
  input : List UInt8

/-- A program: what it leaves when it is started with arguments. -/
abbrev Program : Type := Start → List String → Outcome

/-- A fault of a file in a program's words. -/
def complaintOf : FileFault → String
  | .notFound => "No such file or directory"
  | .notDirectory => "Not a directory"
  | .isDirectory => "Is a directory"
  | .nameTooLong => "File name too long"
  | .denied => "Permission denied"
  | .nulByte | .notText => "Invalid argument"

/-- A line as bytes. -/
def lineOf (s : String) : List UInt8 :=
  Text.encode (s.toList ++ ['\n'])

/-- The words of a line and whether its end is written, as an `echo` inside a shell takes them. -/
def echo (ending : Bool) (dialect : Option Dialect) (words : List String) : List UInt8 :=
  let line := (" ".intercalate words).toList
  (match dialect with
    | some d => unescape d line
    | none => Text.encode line) ++ if ending then [10] else []

/-- Writes its arguments on a line; the shell's own version reads escapes in them. -/
def shellEcho : Program := fun _ args =>
  match args with
  | "-n" :: words => .wrote (echo false (some .argument) words)
  | words => .wrote (echo true (some .argument) words)

/-- Whether a word is an option of `echo`. -/
def isEchoOption (word : String) : Bool :=
  match word.toList with
  | '-' :: c :: cs => (c :: cs).all fun c => c == 'n' || c == 'e' || c == 'E'
  | _ => false

/-- Writes its arguments on a line and reads escapes in them only if told to. -/
def plainEcho : Program := fun _ args =>
  let options := (args.takeWhile isEchoOption).flatMap String.toList
  let escapes := (options.filter fun c => c == 'e' || c == 'E').getLast?
  .wrote (echo (!options.contains 'n') (if escapes = some 'e' then some .argument else none)
    (args.dropWhile isEchoOption))

/-- A piece of a format. -/
inductive Piece where
  | text (cs : List Char)
  | string | escaped | character | number
deriving DecidableEq, Repr

namespace Piece

/-- The pieces of a format. -/
def ofFormat : List Char → List Piece
  | '%' :: '%' :: rest => text ['%'] :: ofFormat rest
  | '%' :: 's' :: rest => string :: ofFormat rest
  | '%' :: 'b' :: rest => escaped :: ofFormat rest
  | '%' :: 'c' :: rest => character :: ofFormat rest
  | '%' :: 'd' :: rest | '%' :: 'i' :: rest => number :: ofFormat rest
  | c :: rest =>
    match ofFormat rest with
    | text cs :: more => text (c :: cs) :: more
    | more => text [c] :: more
  | [] => []

/-- What a piece becomes with the arguments that are left, and the arguments left after it. -/
def write (args : List String) : Piece → List UInt8 × List String
  | text cs => (unescape .format cs, args)
  | string => (Text.encode (args.headD "").toList, args.tail)
  | escaped => (unescape .argument (args.headD "").toList, args.tail)
  | character => (Text.encode ((args.headD "").toList.take 1), args.tail)
  | number =>
    (Text.encode (toString ((Decimal.readInt? (args.headD "").toList).getD 0)).toList, args.tail)

/-- What all pieces of a format become. -/
def writeAll : List Piece → List String → List UInt8 × List String
  | [], args => ([], args)
  | p :: ps, args =>
    let (bytes, args) := p.write args
    let (more, args) := writeAll ps args
    (bytes ++ more, args)

/-- A format, over and over as long as arguments are left, `n` times at most. -/
def fill (pieces : List Piece) : Nat → List String → List UInt8
  | 0, _ => []
  | n + 1, args =>
    match writeAll pieces args with
    | (bytes, rest) =>
      if rest.isEmpty ∨ rest.length = args.length then bytes else bytes ++ fill pieces n rest

end Piece

/-- Writes a format with arguments filled in. -/
def printf : Program := fun _ args =>
  match args with
  | [] => .complaint "printf: usage: printf format [arg ...]" 2
  | format :: args =>
    .wrote (Piece.fill (Piece.ofFormat format.toList) (args.length + 1) args)

/-- Writes one file after another, its input in place of a dash. -/
def cat : Program := fun start args =>
  let files := if args.isEmpty then ["-"] else args
  files.foldl (fun o file =>
    if file = "-" then { o with output := o.output ++ start.input }
    else
      match start.host.files.read start.directory file with
      | .ok content => { o with output := o.output ++ content.data.toList }
      | .error fault =>
        ⟨o.output, o.errors ++ lineOf ("cat: " ++ file ++ ": " ++ complaintOf fault), .status 1⟩)
    (.silent 0)

/-- The names in a directory that do not begin with a dot, in order. -/
def namesIn (t : FileTree) (directory : List String) : List String :=
  let start := (FileTree.fullPath directory ++ "/").toList
  let inside := (Table.keys t.files ++ t.directories).filterMap fun path =>
    match Text.dropPrefix? start path.toList with
    | some name => if name.contains '/' ∨ name.head? = some '.' then none
      else some (String.ofList name)
    | none => none
  inside.mergeSort fun a b => decide (a ≤ b)

/-- Lists a directory, one name on a line, or names a file. -/
def ls : Program := fun start args =>
  let path := args.headD "."
  match start.host.files.locate start.directory path with
  | .ok place =>
    if start.host.files.isDirectory place then
      .wrote ((namesIn start.host.files place).flatMap lineOf)
    else .wrote (lineOf path)
  | .error fault =>
    .complaint ("ls: cannot access '" ++ path ++ "': " ++ complaintOf fault) 2

/-- The programs that can be started by their names alone. -/
def programs : List (String × Program) :=
  [("true", fun _ _ => .silent 0), ("false", fun _ _ => .silent 1), ("echo", plainEcho),
    ("printf", printf), ("cat", cat), ("ls", ls),
    ("pwd", fun start _ => .wrote (lineOf start.directory)),
    ("sleep", fun _ _ => .silent 0)]

/-- The directories in which programs are. -/
def programPaths : List String :=
  ["/bin/", "/usr/bin/"]

/-- The name of a program, without the directory it is in. -/
def programName (program : String) : String :=
  match programPaths.findSome? fun dir => Text.dropPrefix? dir.toList program.toList with
  | some name => String.ofList name
  | none => program

end BlockConfig.Shell
