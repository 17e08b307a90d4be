import BlockConfig.Eval.Inclusion
import BlockConfig.Proofs.Eval.Congruence

/-!
What including a document comes to.

An inclusion ends in one of eight ways: there is no such document, it is open already, it is in the
cache and could be evaluated or could not, or it is fetched, and then it cannot be fetched, cannot be
read, could be evaluated or could not. `Included` has one constructor for each, with what is known
then and the state that is left. Whatever else is said about inclusions follows from it by cases
(`included`), whoever evaluates the statements of the document.
-/

set_option autoImplicit false

namespace BlockConfig

namespace Location

/-- The event of asking for a document. -/
def event : Location → Event
  | file path => .file path
  | remote url => .remote url

/-- From the event of a fetch one can tell what was fetched. -/
theorem event_injective {place place' : Location} (h : place.event = place'.event) :
    place = place' := by
  cases place <;> cases place' <;> cases h <;> rfl

theorem event_ne_command (place : Location) (c : Command) : place.event ≠ .command c := by
  cases place <;> nofun

theorem event_ne_included (place : Location) (key : String) : place.event ≠ .included key := by
  cases place <;> nofun

end Location

/-- The text of a document, or why there is none. -/
def Host.textAt (h : Host) : Location → Except String String
  | .file path => (h.readFile path).mapError FileFault.message
  | .remote url => h.fetch url

namespace World

/-- The world after one more event. -/
def noting (w : World) (e : Event) : World :=
  { w with trace := w.trace ++ [e] }

/-- The world with one more document in the cache. -/
def keeping (w : World) (key : String) (nodes : List Node) : World :=
  { w with cache := Table.insert w.cache key nodes }

variable (w : World) (e : Event)

@[simp] theorem noting_host : (w.noting e).host = w.host := rfl

end World

namespace State

/-- The state after one more event. -/
def noting (s : State) (e : Event) : State :=
  { s with world := s.world.noting e }

/-- The state with one more document in the cache. -/
def keeping (s : State) (key : String) (nodes : List Node) : State :=
  { s with world := s.world.keeping key nodes }

/-- The state after a document has been included: its variables are in the scope. -/
def taking (s : State) (key : String) (vars : Table Value) : State :=
  State.noting { s with scope := s.scope.extend vars } (.included key)

variable (s : State) (e : Event) (key : String) (nodes : List Node) (vars : Table Value)

@[simp] theorem noting_scope : (s.noting e).scope = s.scope := rfl

@[simp] theorem noting_world : (s.noting e).world = s.world.noting e := rfl

@[simp] theorem keeping_scope : (s.keeping key nodes).scope = s.scope := rfl

@[simp] theorem keeping_world : (s.keeping key nodes).world = s.world.keeping key nodes := rfl

@[simp] theorem taking_scope : (s.taking key vars).scope = s.scope.extend vars := rfl

end State

namespace Eval

variable {α : Type} (run : Source → List Node → Eval Unit) (src : Source) (target : String) (s : State)

/-- How the inclusion of a document can end, and the state that is left. -/
inductive Included : Except Fault Value → State → Prop
  | lost {e : EvalError} (lost : src.find s.world.host target = .error e) :
    Included (.error (.error e)) s
  | circular {place : Location} (found : src.find s.world.host target = .ok place)
    (opened : place.key ∈ src.opened) :
    Included (.error (.error (.circularInclusion place.key))) s
  /-- From the cache. -/
  | again {place : Location} {nodes : List Node} {vars : Table Value} {s' : State}
    (found : src.find s.world.host target = .ok place) (closed : place.key ∉ src.opened)
    (cached : Table.find? s.world.cache place.key = some nodes)
    (ran : inChild (run (src.nested place.key place.key) nodes) s = (.ok vars, s')) :
    Included (.ok (.map vars)) (s'.taking place.key vars)
  | againFailed {place : Location} {nodes : List Node} {fault : Fault} {s' : State}
    (found : src.find s.world.host target = .ok place) (closed : place.key ∉ src.opened)
    (cached : Table.find? s.world.cache place.key = some nodes)
    (ran : inChild (run (src.nested place.key place.key) nodes) s = (.error fault, s')) :
    Included (.error fault) s'
  | unfetched {place : Location} {reason : String}
    (found : src.find s.world.host target = .ok place) (closed : place.key ∉ src.opened)
    (missing : Table.find? s.world.cache place.key = none)
    (fetched : s.world.host.textAt place = .error reason) :
    Included (.error (.error (.inclusion target (.unreadable reason)))) (s.noting place.event)
  | unread {place : Location} {text : String} {e : ParseError}
    (found : src.find s.world.host target = .ok place) (closed : place.key ∉ src.opened)
    (missing : Table.find? s.world.cache place.key = none)
    (fetched : s.world.host.textAt place = .ok text)
    (read : Node.parse text place.key = .error e) :
    Included (.error (.error (.parse e))) (s.noting place.event)
  /-- For the first time. -/
  | anew {place : Location} {text : String} {nodes : List Node} {vars : Table Value} {s' : State}
    (found : src.find s.world.host target = .ok place) (closed : place.key ∉ src.opened)
    (missing : Table.find? s.world.cache place.key = none)
    (fetched : s.world.host.textAt place = .ok text)
    (read : Node.parse text place.key = .ok nodes)
    (ran : inFresh (run (src.nested place.key place.key) nodes) (s.noting place.event) =
      (.ok vars, s')) :
    Included (.ok (.map vars)) ((s'.keeping place.key nodes).taking place.key vars)
  | anewFailed {place : Location} {text : String} {nodes : List Node} {fault : Fault} {s' : State}
    (found : src.find s.world.host target = .ok place) (closed : place.key ∉ src.opened)
    (missing : Table.find? s.world.cache place.key = none)
    (fetched : s.world.host.textAt place = .ok text)
    (read : Node.parse text place.key = .ok nodes)
    (ran : inFresh (run (src.nested place.key place.key) nodes) (s.noting place.event) =
      (.error fault, s')) :
    Included (.error fault) s'

theorem world_apply : world s = (.ok s.world, s) :=
  rfl

theorem scope_apply : scope s = (.ok s.scope, s) :=
  rfl

theorem note_apply (e : Event) : note e s = (.ok (), s.noting e) :=
  rfl

theorem fail_apply (e : EvalError) : (fail e : Eval α) s = (.error (.error e), s) :=
  rfl

theorem ofExcept_apply (r : Except EvalError α) :
    ofExcept r s = (r.mapError Fault.error, s) := by
  cases r <;> rfl

theorem fetch_apply (place : Location) :
    fetch place s = (.ok (s.world.host.textAt place), s.noting place.event) := by
  cases place <;> rfl

/-- What comes of a command depends on the host alone, and that it was run is noted. -/
theorem runCommand_apply (c : Command) :
    runCommand src c s = (match src.engine.runner s.world.host c with
      | .ok output => .ok (.str output)
      | .error reason => .error (.error (.exec (.failed reason))), s.noting (.command c)) := by
  unfold runCommand
  rw [bind_apply, note_apply]
  dsimp only
  rw [bind_apply, world_apply]
  dsimp only [State.noting_world, World.noting_host]
  cases src.engine.runner s.world.host c <;> rfl

attribute [local simp] bind_apply world_apply fail_apply ofExcept_apply fetch_apply Except.mapError

variable {run src target s}

/-- An inclusion does what the relation `Included` lists, case by case in the order in which the program
asks its questions. -/
theorem includeWith_eq {r : Except Fault Value} {s' : State}
    (h : Included run src target s r s') : includeWith run src target s = (r, s') := by
  unfold includeWith
  cases h with
  | lost lost => simp [lost]
  | circular found opened => simp [found, opened]
  | again found closed cached ran =>
    simp [found, closed, cached, ran]
    rfl
  | againFailed found closed cached ran => simp [found, closed, cached, ran]
  | unfetched found closed missing fetched => simp [found, closed, missing, fetched]
  | unread found closed missing fetched read => simp [found, closed, missing, fetched, read]
  | anew found closed missing fetched read ran =>
    simp [found, closed, missing, fetched, read, ran]
    rfl
  | anewFailed found closed missing fetched read ran =>
    simp [found, closed, missing, fetched, read, ran]

variable (run src target s)

/-- Every inclusion is one of these cases, so the list is complete. Together with the lemma above, the
relation and the program are the same. -/
theorem exists_included : ∃ r s', Included run src target s r s' := by
  cases found : src.find s.world.host target with
  | error e => exact ⟨_, _, .lost found⟩
  | ok place =>
    by_cases opened : place.key ∈ src.opened
    · exact ⟨_, _, .circular found opened⟩
    cases cached : Table.find? s.world.cache place.key with
    | some nodes =>
      rcases ran : inChild (run (src.nested place.key place.key) nodes) s with ⟨fault | vars, s'⟩
      · exact ⟨_, _, .againFailed found opened cached ran⟩
      · exact ⟨_, _, .again found opened cached ran⟩
    | none =>
      cases fetched : s.world.host.textAt place with
      | error reason => exact ⟨_, _, .unfetched found opened cached fetched⟩
      | ok text =>
        cases read : Node.parse text place.key with
        | error e => exact ⟨_, _, .unread found opened cached fetched read⟩
        | ok nodes =>
          rcases ran : inFresh (run (src.nested place.key place.key) nodes)
            (s.noting place.event) with ⟨fault | vars, s'⟩
          · exact ⟨_, _, .anewFailed found opened cached fetched read ran⟩
          · exact ⟨_, _, .anew found opened cached fetched read ran⟩

/-- **An inclusion ends in one of these ways.** Its result and the state it leaves behind are those that the
relation lists for the case. -/
theorem included :
    Included run src target s (includeWith run src target s).1 (includeWith run src target s).2 := by
  obtain ⟨r, s', h⟩ := exists_included run src target s
  rw [includeWith_eq h]
  exact h

end Eval

end BlockConfig
