/-!
A pool of workers.

A dispatcher hands the items of a list, in order, to workers through a queue of bounded length, and
the workers add their results to a list that only grows. Everyone looks at a flag before taking an
item in hand: once it is set the dispatcher hands out nothing more and the workers stop, but an item
that a worker has taken is finished. What happens next is open at every point; `Step` says what can,
and a `Run` is any sequence of such moves with the log of what they did.

An item's work changes a state that all workers share, and the flag is part of it. Work ends with a
result or breaks off with a message; a worker whose work breaks off reports a result made from the
message and goes on.

`runInOrder` is the run of a single worker that never waits: item after item, until the flag is set.
-/

set_option autoImplicit false

namespace BlockConfig

/-- Items of type `α` with results of type `ρ`, in a shared state of type `σ`. -/
structure Job (α ρ σ : Type) where
  /-- The work on an item, given its place in the list: a result, or the message with which it broke
  off. -/
  work : Nat → α → σ → Except String ρ × σ
  /-- What is reported for the item at a place whose work broke off. -/
  onAbort : Nat → String → ρ
  /-- Whether the flag is set. -/
  stopped : σ → Bool
  /-- Sets the flag. -/
  stop : σ → σ

/-- The work on an item and what is reported for it. -/
def Job.perform {α ρ σ : Type} (job : Job α ρ σ) (index : Nat) (item : α) (s : σ) : ρ × σ :=
  match job.work index item s with
  | (.ok r, s) => (r, s)
  | (.error message, s) => (job.onAbort index message, s)

namespace Pool

variable {α ρ σ : Type}

/-- What the dispatcher is about to do. -/
inductive Dispatcher where
  /-- It looks at the flag. -/
  | checking
  /-- It puts the next item into the queue. -/
  | sending
  /-- It has closed the queue. -/
  | done
deriving DecidableEq, Repr

/-- What a worker is about to do. -/
inductive Worker (α : Type) where
  /-- It looks at the flag. -/
  | checking
  /-- It takes an item from the queue. -/
  | receiving
  /-- It works on an item. -/
  | working (index : Nat) (item : α)
  /-- It has stopped. -/
  | exited

namespace Worker

/-- Whether a worker has stopped. -/
def hasExited : Worker α → Bool
  | exited => true
  | _ => false

end Worker

/-- A pool at some point of its run. -/
structure Config (α ρ σ : Type) where
  /-- The items, with their places, that have not been put into the queue. -/
  pending : List (Nat × α)
  dispatcher : Dispatcher
  queue : List (Nat × α)
  workers : List (Worker α)
  /-- The results in the order in which they came, each with the place of its item. -/
  results : List (Nat × ρ)
  shared : σ

/-- Items with their places in a list. -/
def placed (items : List α) : List (Nat × α) :=
  items.zipIdx.map fun (item, index) => (index, item)

/-- How many workers there are: at least one, and no more than there are items. -/
def workerCount (wanted : Nat) (items : List α) : Nat :=
  max 1 (min wanted (max 1 items.length))

/-- A pool before its first step. -/
def Config.start (wanted : Nat) (items : List α) (shared : σ) : Config α ρ σ where
  pending := placed items
  dispatcher := .checking
  queue := []
  workers := List.replicate (workerCount wanted items) .checking
  results := []
  shared := shared

/-- What one move of a pool does, as far as it can be told apart from outside. -/
inductive Act where
  /-- Somebody looks at the flag and goes on. -/
  | look
  /-- The dispatcher puts the item at a place into the queue. -/
  | send (index : Nat)
  /-- The dispatcher closes the queue. -/
  | close
  /-- A worker takes the item at a place from the queue. -/
  | take (worker index : Nat)
  /-- A worker reports the result for a place. -/
  | report (worker index : Nat)
  /-- A worker stops. -/
  | exit (worker : Nat)
  /-- The flag is set from outside. -/
  | interrupt
deriving DecidableEq, Repr

/-- The steps of the dispatcher and of the workers. The queue holds `max 1 capacity` items. Workers
are numbered by their place in the list of workers. -/
inductive Step (job : Job α ρ σ) (capacity : Nat) : Act → Config α ρ σ → Config α ρ σ → Prop
  /-- The dispatcher has nothing left to hand out. -/
  | finish {c : Config α ρ σ} (hd : c.dispatcher = .checking) (hp : c.pending = []) :
      Step job capacity .close c { c with dispatcher := .done }
  /-- The dispatcher sees the flag. -/
  | refrain {c : Config α ρ σ} (hd : c.dispatcher = .checking) (hp : c.pending ≠ [])
      (hs : job.stopped c.shared = true) :
      Step job capacity .close c { c with dispatcher := .done }
  /-- The dispatcher does not see the flag. -/
  | proceed {c : Config α ρ σ} (hd : c.dispatcher = .checking) (hp : c.pending ≠ [])
      (hs : job.stopped c.shared = false) :
      Step job capacity .look c { c with dispatcher := .sending }
  /-- The next item goes into the queue. -/
  | send {c : Config α ρ σ} {x : Nat × α} {rest : List (Nat × α)} (hd : c.dispatcher = .sending)
      (hp : c.pending = x :: rest) (hq : c.queue.length < max 1 capacity)
      (hw : ∃ w ∈ c.workers, w.hasExited = false) :
      Step job capacity (.send x.1) c
        { c with dispatcher := .checking, pending := rest, queue := c.queue ++ [x] }
  /-- No worker is left to take an item. -/
  | giveUp {c : Config α ρ σ} (hd : c.dispatcher = .sending)
      (hw : ∀ w ∈ c.workers, w.hasExited = true) :
      Step job capacity .close c { c with dispatcher := .done }
  /-- A worker sees the flag. -/
  | leave {c : Config α ρ σ} {front back : List (Worker α)}
      (hw : c.workers = front ++ .checking :: back) (hs : job.stopped c.shared = true) :
      Step job capacity (.exit front.length) c { c with workers := front ++ .exited :: back }
  /-- A worker does not see the flag. -/
  | stay {c : Config α ρ σ} {front back : List (Worker α)}
      (hw : c.workers = front ++ .checking :: back) (hs : job.stopped c.shared = false) :
      Step job capacity .look c { c with workers := front ++ .receiving :: back }
  /-- A worker takes the first item of the queue. -/
  | receive {c : Config α ρ σ} {front back : List (Worker α)} {x : Nat × α}
      {rest : List (Nat × α)} (hw : c.workers = front ++ .receiving :: back)
      (hq : c.queue = x :: rest) :
      Step job capacity (.take front.length x.1) c
        { c with workers := front ++ .working x.1 x.2 :: back, queue := rest }
  /-- A worker finds the queue empty and closed. -/
  | close {c : Config α ρ σ} {front back : List (Worker α)}
      (hw : c.workers = front ++ .receiving :: back) (hq : c.queue = [])
      (hd : c.dispatcher = .done) :
      Step job capacity (.exit front.length) c { c with workers := front ++ .exited :: back }
  /-- A worker finishes its item. -/
  | report {c : Config α ρ σ} {front back : List (Worker α)} {index : Nat} {item : α} {r : ρ}
      {s : σ} (hw : c.workers = front ++ .working index item :: back)
      (hr : job.work index item c.shared = (.ok r, s)) :
      Step job capacity (.report front.length index) c
        { c with
          workers := front ++ .checking :: back
          results := c.results ++ [(index, r)]
          shared := s }
  /-- A worker's item breaks off. -/
  | breakOff {c : Config α ρ σ} {front back : List (Worker α)} {index : Nat} {item : α}
      {message : String} {s : σ} (hw : c.workers = front ++ .working index item :: back)
      (hr : job.work index item c.shared = (.error message, s)) :
      Step job capacity (.report front.length index) c
        { c with
          workers := front ++ .checking :: back
          results := c.results ++ [(index, job.onAbort index message)]
          shared := s }

/-- A step of the pool, or somebody sets the flag. -/
inductive Move (job : Job α ρ σ) (capacity : Nat) : Act → Config α ρ σ → Config α ρ σ → Prop
  | step {act : Act} {c d : Config α ρ σ} (h : Step job capacity act c d) :
      Move job capacity act c d
  | interrupt (c : Config α ρ σ) :
      Move job capacity .interrupt c { c with shared := job.stop c.shared }

/-- A run of a pool from a configuration, move by move. The log keeps each move and whether the flag
was set behind it, the latest last. -/
inductive Run (job : Job α ρ σ) (capacity : Nat) (start : Config α ρ σ) :
    List (Act × Bool) → Config α ρ σ → Prop
  | start : Run job capacity start [] start
  | next {log : List (Act × Bool)} {act : Act} {c d : Config α ρ σ}
      (h : Run job capacity start log c) (m : Move job capacity act c d) :
      Run job capacity start (log ++ [(act, job.stopped d.shared)]) d

/-- What a pool may have come to after any number of moves. -/
def Reachable (job : Job α ρ σ) (capacity : Nat) (start c : Config α ρ σ) : Prop :=
  ∃ log, Run job capacity start log c

/-- Whether the dispatcher and all workers have come to their end. -/
def Config.ended (c : Config α ρ σ) : Bool :=
  c.dispatcher = .done && c.workers.all Worker.hasExited

/-- The places of the items that have no result. -/
def skipped (total : Nat) (results : List (Nat × ρ)) : List Nat :=
  (List.range total).filter fun i => !results.any fun r => r.1 = i

/-- The run of a single worker from item `index` on: its results, and the state it leaves. -/
def runInOrder (job : Job α ρ σ) : Nat → List α → σ → List (Nat × ρ) × σ
  | _, [], s => ([], s)
  | index, item :: items, s =>
    -- The flag is looked at between items, never during the work on one.
    if job.stopped s then ([], s)
    else
      let (r, s) := job.perform index item s
      let (rs, s) := runInOrder job (index + 1) items s
      ((index, r) :: rs, s)

end Pool

end BlockConfig
