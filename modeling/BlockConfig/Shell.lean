import BlockConfig.Shell.Program
import BlockConfig.Shell.Script
import BlockConfig.Text.Blank

/-!
Running commands in a simulated system.

The system has the files and the variables of a host, a handful of programs, and a shell that runs
scripts. Nothing that runs changes the host: what is redirected to a file is lost.

`runner` starts a command and turns what it leaves into an answer: everything it wrote if it
succeeded, else a message with how it ended and what it wrote. What was written to the second output
comes after what was written to the first.
-/

set_option autoImplicit false

namespace BlockConfig.Shell

/-- Where an output goes. -/
inductive Drain where
  | output | errors | nowhere
deriving DecidableEq, Repr

/-- A shell while it runs a script. -/
structure Session where
  start : Start
  /-- The arguments of the script; the first is the name of the shell. -/
  args : List String
  /-- How the last pipeline ended. -/
  code : Nat
  output : List UInt8
  errors : List UInt8
  /-- How the shell has ended, if it has. -/
  ended : Option Ending

namespace Session

/-- The number of the shell's process. -/
def process : String := "2"

/-- The value of a variable, empty if it has none. -/
def value (s : Session) (name : String) : String :=
  if name = "?" then s.code.repr
  else if name = "$" then process
  else if name = "#" then (s.args.length - 1).repr
  else if name = "PWD" then s.start.directory
  else
    match name.toNat? with
    | some n => s.args.getD n ""
    | none => (Table.find? s.start.host.environment name).getD ""

/-- The strings that a word becomes. An unquoted value is split at blanks, and a word without text
or quotes disappears if its values are empty. -/
def expand (s : Session) (w : Word) : List String :=
  let step (fields : List (List Char) × Option (List Char)) (p : Part) :
      List (List Char) × Option (List Char) :=
    match p with
    | .text cs => (fields.1, some (fields.2.getD [] ++ cs))
    | .variable name true => (fields.1, some (fields.2.getD [] ++ (s.value name).toList))
    | .variable name false =>
      (s.value name).toList.foldl (fun (fields : List (List Char) × Option (List Char)) c =>
        if Text.isGap c then (fields.1 ++ fields.2.toList, none)
        else (fields.1, some (fields.2.getD [] ++ [c]))) fields
  let (done, open?) := w.foldl step ([], none)
  (done ++ open?.toList).map String.ofList

/-- A word as one string. -/
def expandOne (s : Session) (w : Word) : String :=
  " ".intercalate (s.expand w)

/-- What a complaint of the shell looks like. -/
def complaint (s : Session) (message : String) (code : Nat) : Outcome :=
  .complaint (s.args.headD "sh" ++ ": 1: " ++ message) code

end Session

/-- The signals that can be named. -/
def signals : List (Nat × String) :=
  [(1, "HUP"), (2, "INT"), (9, "KILL"), (10, "USR1"), (12, "USR2"), (13, "PIPE"), (14, "ALRM"),
    (15, "TERM")]

/-- The ending by the signal with a number or a name. -/
def signalOf? (word : String) : Option Ending :=
  (signals.find? fun s => s.1.repr = word ∨ s.2 = word ∨ "SIG" ++ s.2 = word).map fun s =>
    .signal s.1 ("SIG" ++ s.2)

/-- The signal that the arguments of `kill` send to the shell, if they do. -/
def killed? : List String → Option Ending
  | [pid] => if pid = Session.process then signalOf? "TERM" else none
  | ["-s", name, pid] => if pid = Session.process then signalOf? name else none
  | [option, pid] =>
    if pid = Session.process then
      match option.toList with
      | '-' :: name => signalOf? (String.ofList name)
      | _ => none
    else none
  | _ => none

/-- Where the two outputs of a command go, and the file of its input. -/
def redirect (s : Session) (rs : List Redirection) : (Drain × Drain) × Option String :=
  rs.foldl (fun (drains, input) r =>
    match r with
    | .input w => (drains, some (s.expandOne w))
    | .toFile source _ => ((if source = 1 then (.nowhere, drains.2) else (drains.1, .nowhere)), input)
    | .toOutput source target =>
      let drain := if target = 1 then drains.1 else drains.2
      ((if source = 1 then (drain, drains.2) else (drains.1, drain)), input))
    ((.output, .errors), none)

/-- What goes into a drain. -/
def into (d : Drain) (drains : Drain × Drain) (o : Outcome) : List UInt8 :=
  (if drains.1 = d then o.output else []) ++ (if drains.2 = d then o.errors else [])

/-- Runs a simple command with some input; `external` runs programs. The outcome has the outputs as
redirected. -/
def runSimple (external : String → Option Program) (s : Session) (input : List UInt8) (c : Simple) :
    Outcome × Session :=
  let (drains, file) := redirect s c.redirections
  let finish (o : Outcome) : Outcome := ⟨into .output drains o, into .errors drains o, o.ending⟩
  match file.map (s.start.host.files.read s.start.directory) with
  | some (.error fault) =>
    (s.complaint ("cannot open " ++ file.getD "" ++ ": " ++
      if fault = .notFound then "No such file" else complaintOf fault) 2, s)
  | given =>
    let start := { s.start with input := match given with
      | some (.ok content) => content.data.toList
      | _ => input }
    match c.words.flatMap s.expand with
    -- Words can come to nothing.
    | [] => (.silent 0, s)
    | ":" :: _ => (.silent 0, s)
    | "exit" :: args =>
      let code := match args.head? with
        | some n => (n.toNat?.getD 2) % 256
        | none => s.code
      (.silent code, { s with ended := some (.status code) })
    | "kill" :: args =>
      match killed? args with
      | some ending => (.silent ending.code, { s with ended := some ending })
      | none => (finish (s.complaint "kill: No such process" 1), s)
    | "cd" :: args =>
      let target := args.headD "/"
      match start.host.files.canonical? start.directory target with
      | some place =>
        if start.host.isFile place then
          (finish (s.complaint ("cd: can't cd to " ++ target) 2), s)
        else (.silent 0, { s with start := { s.start with directory := place } })
      | none => (finish (s.complaint ("cd: can't cd to " ++ target) 2), s)
    | "echo" :: args => (finish (shellEcho start args), s)
    -- What the shell does not do itself is a program.
    | name :: args =>
      match external name with
      | some program => (finish (program start args), s)
      | none => (finish (s.complaint (name ++ ": not found") 127), s)

/-- Runs a pipeline: the output of each command is the input of the next one. Of several commands
none changes the shell. -/
def runPipeline (external : String → Option Program) (s : Session) :
    List UInt8 → List Simple → Session
  | _, [] => s
  | input, [c] =>
    let (o, s) := runSimple external s input c
    let code := if c.words.isEmpty then s.code else o.ending.code
    { s with output := s.output ++ o.output, errors := s.errors ++ o.errors, code := code }
  | input, c :: cs =>
    let (o, _) := runSimple external s input c
    runPipeline external { s with errors := s.errors ++ o.errors } o.output cs

/-- Whether a pipeline runs after one that ended with a code. -/
def Condition.holds (c : Condition) (code : Nat) : Bool :=
  match c with
  | .always => true
  | .afterSuccess => code = 0
  | .afterFailure => code ≠ 0

/-- Runs a script until it or the shell ends. -/
def runScript (external : String → Option Program) (s : Session) (script : Script) : Outcome :=
  let s := script.foldl (fun s (condition, commands) =>
    if s.ended.isNone ∧ condition.holds s.code then runPipeline external s s.start.input commands
    else s) s
  ⟨s.output, s.errors, s.ended.getD (.status s.code)⟩

/-- The shell as a program. Shells start shells at most `depth` deep. -/
def shell (depth : Nat) : Program := fun start args =>
  let external (name : String) : Option Program :=
    let name := programName name
    match depth with
    | 0 => programs.lookup name
    | depth + 1 => if name = "sh" then some (shell depth) else programs.lookup name
  match args with
  | "-c" :: script :: names =>
    let s : Session := ⟨start, if names.isEmpty then ["sh"] else names, 0, [], [], none⟩
    match parse? script with
    | some script => runScript external s script
    | none => s.complaint "Syntax error" 2
  | _ => .silent 0

/-- Why a command cannot be started. -/
inductive StartFault where
  | file (fault : FileFault)
  | nulByte
deriving DecidableEq, Repr

namespace StartFault

/-- The message of a fault. -/
def message : StartFault → String
  | file fault => fault.message
  | nulByte => "nul byte found in provided data"

end StartFault

/-- The program that a command means in a directory, or why it cannot be started. -/
def find (host : Host) (directory program : String) : Except FileFault Program :=
  let name := programName program
  if name = "sh" then .ok (shell 8)
  else
    match programs.lookup name with
    | some p => .ok p
    | none =>
      if program.toList.contains '/' then
        match host.files.locate directory program with
        | .ok _ => .error .denied
        | .error fault => .error fault
      else .error .notFound

/-- The full path of the directory that a command runs in. -/
def directoryOf (host : Host) (c : Command) : Except FileFault String := do
  match c.directory with
  | none => return host.workingDirectory
  | some path =>
    let place ← host.files.locate host.workingDirectory path
    if host.files.isDirectory place then
      return if place.isEmpty then "/" else FileTree.fullPath place
    else .error .notDirectory

/-- Starts a command. -/
def start (host : Host) (c : Command) : Except StartFault Outcome := do
  if (c.program :: c.directory.toList ++ c.args).any fun s => s.toList.contains '\x00' then
    .error .nulByte
  else
    let directory ← (directoryOf host c).mapError .file
    let program ← (find host directory c.program).mapError .file
    return program ⟨host, directory, []⟩ c.args

/-- Runs commands. -/
def runner : Runner := fun host c =>
  match start host c with
  | .error fault => .error ("failed to start '" ++ c.program ++ "': " ++ fault.message)
  | .ok o =>
    -- The outputs are one text, the first one in front.
    let written := Text.decode o.output ++ Text.decode o.errors
    if o.ending = .status 0 then .ok written
    else
      .error ("'" ++ c.program ++ "' exited with " ++ o.ending.text ++ ": " ++ Text.trimEnd written)

end BlockConfig.Shell
