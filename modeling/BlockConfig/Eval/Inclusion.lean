import BlockConfig.Eval.Evaluate
import BlockConfig.Node.Size

/-!
Including documents, and evaluation as a whole.

A target is the address of a remote document or a path. A relative path is looked for beside the
including document and then in the directories of the settings. The full path, or the address, is
the *key* of the document. A document that is open cannot be included again. One whose key is in the
cache is evaluated in a scope inside the caller's; any other is fetched, read, evaluated in a scope
with nothing around it, and put into the cache once that has succeeded. In both cases the caller's
table takes the variables of the document only after it has been evaluated to its end.

Evaluation ends because of two bounds. Expressions found in strings are shorter than the strings
(`Hooks.atDepth` counts down the length of the longest one), and every document that is opened has
another key (`Source.includeWithin` counts down the documents that can be had).
-/

set_option autoImplicit false

namespace BlockConfig

/-- Where a document to be included was found. -/
inductive Location where
  | file (path : String)
  | remote (url : String)
deriving DecidableEq, Repr

namespace Location

/-- What identifies the document: its full path or its address. -/
def key : Location → String
  | file path => path
  | remote url => url

end Location

/-- Whether a target is the address of a remote document. -/
def isRemote (target : String) : Bool :=
  (Text.dropPrefix? "http://".toList target.toList).isSome ||
    (Text.dropPrefix? "https://".toList target.toList).isSome

namespace Source

/-- The document at a path, opened from this one under a key. -/
def nested (src : Source) (path key : String) : Source :=
  let base := match Path.parent? path with
    | some dir => if dir = "" then src.base else dir
    | none => src.base
  { src with file := path, base := base, opened := src.opened ++ [key] }

/-- The paths that a target may mean, in the order in which they are tried. -/
def candidates (src : Source) (target : String) : List String :=
  if Path.isAbsolute target then [target]
  else
    Path.join src.base target ::
      src.engine.settings.includePaths.map fun dir => Path.join dir target

/-- Where the document that a target names is. -/
def find (src : Source) (host : Host) (target : String) : Except EvalError Location :=
  if isRemote target then
    if src.engine.settings.allowRemote then .ok (.remote target)
    else .error (.inclusion target .remoteDisabled)
  else
    match (src.candidates target).find? host.isFile with
    | some path => .ok (.file ((host.canonical? path).getD path))
    | none => .error (.inclusion target .notFound)

end Source

namespace Eval

/-- The text of a document. -/
def fetch : Location → Eval (Except String String)
  | .file path => do
    note (.file path)
    return ((← world).host.readFile path).mapError FileFault.message
  | .remote url => do
    note (.remote url)
    return (← world).host.fetch url

/-- Includes the document that a target names; `run` evaluates the statements of a document. -/
def includeWith (run : Source → List Node → Eval Unit) (src : Source) (target : String) :
    Eval Value := do
  let place ← ofExcept (src.find (← world).host target)
  let key := place.key
  -- A document that is open would include itself again and again.
  if src.opened.contains key then
    fail (.circularInclusion key)
  else
    let inner := src.nested key key
    match Table.find? (← world).cache key with
    -- A document from the cache sees the names of the document that includes it.
    | some nodes =>
      let vars ← inChild (run inner nodes)
      modifyScope fun s => s.extend vars
      note (.included key)
      return .map vars
    -- A new one sees none, and is kept only if all of it could be evaluated.
    | none =>
      match ← fetch place with
      | .error reason => fail (.inclusion target (.unreadable reason))
      | .ok text =>
        match Node.parse text key with
        | .error e => fail (.parse e)
        | .ok nodes =>
          let vars ← inFresh (run inner nodes)
          modifyScope fun s => s.extend vars
          modifyWorld fun w => { w with cache := Table.insert w.cache key nodes }
          note (.included key)
          return .map vars

end Eval

/-- How evaluation goes on in strings, `depth` strings deep at most. -/
def Hooks.atDepth (inclusion : String → Eval Value) (src : Source) : Nat → Hooks
  | 0 => ⟨fun _ => Eval.fail (.interpolation .tooDeep), inclusion⟩
  | depth + 1 =>
    ⟨fun node => do
      Eval.ofExcept ((← node.evalWith src (Hooks.atDepth inclusion src depth)).unwrapCall node),
      inclusion⟩

/-- Includes a document that may itself include others, `n` documents deep at most. -/
def Source.includeWithin : Nat → Source → String → Eval Value
  | 0, _, target => Eval.fail (.inclusion target .noneLeft)
  | n + 1, src, target =>
    Eval.includeWith
      (fun inner nodes =>
        evalStatements inner
          (Hooks.atDepth (Source.includeWithin n inner) inner (longestTextAll nodes)) nodes)
      src target

namespace World

/-- How many documents can be had: those that can be fetched and those in the cache. -/
def reach (w : World) : Nat :=
  w.host.files.files.length + w.host.documents.length + w.cache.length

end World

/-- How evaluation of a node with strings of at most the given length goes on. -/
def Source.hooks (src : Source) (w : World) (longest : Nat) : Hooks :=
  Hooks.atDepth (src.includeWithin (w.reach + 1)) src longest

/-- The value of a node. A call gives its tuple. -/
def Node.eval (src : Source) (n : Node) : Eval Value := do
  n.evalWith src (src.hooks (← Eval.world) n.longestText)

/-- The value of a node, a call taken apart. -/
def Node.evalValue (src : Source) (n : Node) : Eval Value := do
  Eval.ofExcept ((← n.eval src).unwrapCall n)

/-- Runs the statements of a document in the current scope. -/
def Source.run (src : Source) (nodes : List Node) : Eval Unit := do
  evalStatements src (src.hooks (← Eval.world) (longestTextAll nodes)) nodes

end BlockConfig
