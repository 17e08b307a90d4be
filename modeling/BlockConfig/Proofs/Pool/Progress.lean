import BlockConfig.Proofs.Pool.Conservation
import Mathlib.Algebra.Ring.Nat

/-!
A pool does not get stuck.

Two of the places at which a party can stand may hold it up: sending into a full queue, and receiving
from an empty one. Which party is held up when is said exactly (`dispatcherMoves_iff`,
`workerMoves_iff`): a send waits only as long as the queue is full and somebody has not stopped, a
receive only as long as the queue is empty and not closed. The two cannot hold everybody up at once,
because a full queue is not empty. The only fact about the past that this needs is that a dispatcher
that is sending has something to send (`pending_of_sending`).

That nobody is stuck does not yet mean that the pool comes to its end, so the moves left are counted
(`Config.remaining`): every step takes at least one off, and setting the flag adds none. A run is
therefore no longer than the count at its start, interruptions apart, and every configuration of a
run can be led to the end (`exists_run_to_end`).

One run to the end is given by `runInOrder`: a single worker that takes turns with the dispatcher
(`exists_run_inOrder`).
-/

set_option autoImplicit false

namespace BlockConfig.Pool

variable {α ρ σ : Type} {job : Job α ρ σ} {capacity : Nat}

/-! ## 1. Who can move -/

section Moves

variable (job capacity) (c : Config α ρ σ)

/-- The dispatcher can go on: there is a step behind which it is about to do something else. -/
def DispatcherMoves : Prop :=
  ∃ act d, Step job capacity act c d ∧ d.dispatcher ≠ c.dispatcher

/-- Worker number `k` can go on. -/
def WorkerMoves (k : Nat) : Prop :=
  ∃ act d, Step job capacity act c d ∧ d.workers[k]? ≠ c.workers[k]?

end Moves

/-- A worker in a list, with those before and behind it. -/
theorem exists_split_of_getElem? {workers : List (Worker α)} {k : Nat} {w : Worker α}
    (h : workers[k]? = some w) :
    ∃ front back, workers = front ++ w :: back ∧ front.length = k := by
  obtain ⟨hk, hw⟩ := List.getElem?_eq_some_iff.1 h
  refine ⟨workers.take k, workers.drop (k + 1), ?_, List.length_take_of_le (by omega)⟩
  rw [← hw, List.getElem_cons_drop, List.take_append_drop]

/-- Replacing one worker changes no other. -/
theorem eq_length_of_getElem?_ne {front back : List (Worker α)} {v w : Worker α} {k : Nat}
    (h : (front ++ v :: back)[k]? ≠ (front ++ w :: back)[k]?) : k = front.length := by
  by_contra hk
  rcases Nat.lt_or_gt_of_ne hk with hlt | hgt
  · exact h (by rw [List.getElem?_append_left hlt, List.getElem?_append_left hlt])
  · obtain ⟨m, hm⟩ : ∃ m, k - front.length = m + 1 := ⟨k - front.length - 1, by omega⟩
    refine h ?_
    rw [List.getElem?_append_right (by omega), List.getElem?_append_right (by omega), hm,
      List.getElem?_cons_succ, List.getElem?_cons_succ]

theorem getElem?_length_append (front back : List (Worker α)) (w : Worker α) :
    (front ++ w :: back)[front.length]? = some w := by
  rw [List.getElem?_append_right (Nat.le_refl _), Nat.sub_self, List.getElem?_cons_zero]

/-- A step that takes a worker from one thing to another is a move of that worker. -/
theorem workerMoves_of_step {act : Act} {c d : Config α ρ σ} {front back : List (Worker α)}
    {v w : Worker α} (hw : c.workers = front ++ w :: back) (hd : d.workers = front ++ v :: back)
    (hvw : v ≠ w) (h : Step job capacity act c d) : WorkerMoves job capacity c front.length := by
  refine ⟨act, d, h, ?_⟩
  rw [hw, hd, getElem?_length_append, getElem?_length_append]
  exact fun heq => hvw (Option.some.inj heq)

/-- **A worker that has not stopped can go on, unless it waits for the queue:** while the queue is
empty and not closed. -/
theorem workerMoves_iff {c : Config α ρ σ} {k : Nat} {w : Worker α} (hk : c.workers[k]? = some w)
    (hw : w.hasExited = false) :
    WorkerMoves job capacity c k ↔ (w = .receiving → c.queue ≠ [] ∨ c.dispatcher = .done) := by
  constructor
  · rintro ⟨act, d, h, hne⟩ rfl
    cases h with
    | finish | refrain | proceed | send | giveUp => exact absurd rfl hne
    | leave hs | stay hs | report hs | breakOff hs =>
      rw [hs] at hne hk
      obtain rfl := eq_length_of_getElem?_ne hne
      rw [getElem?_length_append] at hk
      simp at hk
    | receive _ hq => exact .inl (by simp [hq])
    | close _ _ hd => exact .inr hd
  -- Each state of a worker has its step; only to receive it needs an item, or to know that none will
  -- come.
  · intro free
    obtain ⟨front, back, hc, rfl⟩ := exists_split_of_getElem? hk
    cases w with
    | exited => simp [Worker.hasExited] at hw
    | checking =>
      cases hs : job.stopped c.shared with
      | true => exact workerMoves_of_step hc rfl (by simp) (.leave hc hs)
      | false => exact workerMoves_of_step hc rfl (by simp) (.stay hc hs)
    | receiving =>
      cases hq : c.queue with
      | cons x rest => exact workerMoves_of_step hc rfl (by simp) (.receive hc hq)
      | nil =>
        have hd : c.dispatcher = .done := (free rfl).resolve_left (fun h => h hq)
        exact workerMoves_of_step hc rfl (by simp) (.close hc hq hd)
    | working index item =>
      rcases hr : job.work index item c.shared with ⟨_ | _, s⟩
      · exact workerMoves_of_step hc rfl (by simp) (.breakOff hc hr)
      · exact workerMoves_of_step hc rfl (by simp) (.report hc hr)

/-- **A dispatcher that has something to send can go on, unless it waits for the queue:** while the
queue is full and some worker has not stopped. -/
theorem dispatcherMoves_iff {c : Config α ρ σ} (hdone : c.dispatcher ≠ .done)
    (hpending : c.dispatcher = .sending → c.pending ≠ []) :
    DispatcherMoves job capacity c ↔
      (c.dispatcher = .sending →
        c.queue.length < max 1 capacity ∨ ∀ w ∈ c.workers, w.hasExited = true) := by
  constructor
  · rintro ⟨act, d, h, hne⟩ hs
    cases h with
    | finish hd | refrain hd | proceed hd => simp [hs] at hd
    | send _ _ hq => exact .inl hq
    | giveUp _ hw => exact .inr hw
    | leave | stay | receive | close | report | breakOff => exact absurd rfl hne
  · intro free
    cases hd : c.dispatcher with
    | done => exact absurd hd hdone
    | checking =>
      by_cases hp : c.pending = []
      · exact ⟨_, _, .finish hd hp, by simp [hd]⟩
      · cases hs : job.stopped c.shared with
        | true => exact ⟨_, _, .refrain hd hp hs, by simp [hd]⟩
        | false => exact ⟨_, _, .proceed hd hp hs, by simp [hd]⟩
    | sending =>
      by_cases hw : ∀ w ∈ c.workers, w.hasExited = true
      · exact ⟨_, _, .giveUp hd hw, by simp [hd]⟩
      · obtain ⟨x, rest, hp⟩ := List.exists_cons_of_ne_nil (hpending hd)
        have hq := (free hd).resolve_right hw
        simp only [not_forall, Bool.not_eq_true] at hw
        obtain ⟨w, hmem, hexited⟩ := hw
        exact ⟨_, _, .send hd hp hq ⟨w, hmem, hexited⟩, by simp [hd]⟩

/-! ## 2. Somebody can move -/

theorem pending_of_sending_of_step {act : Act} {c d : Config α ρ σ}
    (h : Step job capacity act c d) (hc : c.dispatcher = .sending → c.pending ≠ []) :
    d.dispatcher = .sending → d.pending ≠ [] := by
  cases h with
  | finish | refrain | giveUp | send => simp
  | proceed _ hp => exact fun _ => hp
  | leave | stay | receive | close | report | breakOff => exact hc

/-- The dispatcher has looked what is left before it sends. -/
theorem pending_of_sending {wanted : Nat} {items : List α} {shared : σ} {log : List (Act × Bool)}
    {c : Config α ρ σ} (run : Run job capacity (.start wanted items shared) log c) :
    c.dispatcher = .sending → c.pending ≠ [] := by
  generalize hstart : Config.start wanted items shared = start at run
  induction run with
  | start =>
    subst hstart
    exact fun h => absurd h (by simp [Config.start])
  | next _ move ih =>
    cases move with
    | step h => exact pending_of_sending_of_step h ih
    | interrupt => exact ih

/-- **Somebody can move as long as not all have come to their end.** If the dispatcher is held up, the queue
is full, and there is a worker that has not ended and can take something from it. -/
theorem moves_of_not_ended {c : Config α ρ σ} (hc : c.ended = false)
    (hpending : c.dispatcher = .sending → c.pending ≠ []) :
    DispatcherMoves job capacity c ∨ ∃ k, WorkerMoves job capacity c k := by
  have busy : (∃ w ∈ c.workers, w.hasExited = false) → (c.queue ≠ [] ∨ c.dispatcher = .done) →
      ∃ k, WorkerMoves job capacity c k := by
    rintro ⟨w, hmem, hw⟩ hq
    obtain ⟨k, hk⟩ := List.mem_iff_getElem?.1 hmem
    exact ⟨k, (workerMoves_iff hk hw).2 fun _ => hq⟩
  by_cases hdone : c.dispatcher = .done
  · refine .inr (busy ?_ (.inr hdone))
    simpa [Config.ended, hdone] using hc
  · by_cases hmoves : DispatcherMoves job capacity c
    · exact .inl hmoves
    · -- A dispatcher that is held up has filled the queue, so that no worker waits for it.
      rw [dispatcherMoves_iff hdone hpending] at hmoves
      simp only [Classical.not_imp, not_or, not_forall, Nat.not_lt, Bool.not_eq_true] at hmoves
      obtain ⟨-, hfull, w, hmem, hw⟩ := hmoves
      refine .inr (busy ⟨w, hmem, hw⟩ (.inl fun hq => ?_))
      rw [hq, List.length_nil] at hfull
      omega

/-! ## 3. How many moves are left -/

/-- How many moves the dispatcher has before it is done, those for items apart. -/
def Dispatcher.remaining : Dispatcher → Nat
  | checking => 2
  | sending => 1
  | done => 0

/-- How many moves a worker has before it stops, those for items in the queue apart. -/
def Worker.remaining : Worker α → Nat
  | checking => 2
  | receiving => 1
  | working _ _ => 3
  | exited => 0

/-- A bound for the moves that are left. An item in the queue still costs a worker three moves, and
one that is not yet there two more of the dispatcher's. -/
def Config.remaining (c : Config α ρ σ) : Nat :=
  5 * c.pending.length + 3 * c.queue.length + c.dispatcher.remaining +
    (c.workers.map Worker.remaining).sum

theorem sum_remaining_append (front back : List (Worker α)) (w : Worker α) :
    ((front ++ w :: back).map Worker.remaining).sum =
      w.remaining + ((front ++ back).map Worker.remaining).sum := by
  simp only [List.map_append, List.map_cons, List.sum_append, List.sum_cons]
  omega

/-- **A step leaves fewer moves.** The measure weighs each item by the moves it still needs, and adds what
the dispatcher and the workers have before them. -/
theorem remaining_lt_of_step {act : Act} {c d : Config α ρ σ} (h : Step job capacity act c d) :
    d.remaining < c.remaining := by
  cases h with
  | finish hd | refrain hd | proceed hd | giveUp hd =>
    simp only [Config.remaining, hd, Dispatcher.remaining]
    omega
  | send hd hp =>
    simp only [Config.remaining, hd, hp, Dispatcher.remaining, List.length_append, List.length_cons,
      List.length_nil]
    omega
  | receive hw hq =>
    simp only [Config.remaining, hw, hq, sum_remaining_append, Worker.remaining, List.length_cons]
    omega
  | leave hw | stay hw | close hw | report hw | breakOff hw =>
    simp only [Config.remaining, hw, sum_remaining_append, Worker.remaining]
    omega

/-- Whether an entry of a log is a move of the dispatcher or of a worker. -/
def isOwn (entry : Act × Bool) : Bool :=
  entry.1 ≠ .interrupt

theorem ne_interrupt_of_step {act : Act} {c d : Config α ρ σ} (h : Step job capacity act c d) :
    act ≠ .interrupt := by
  cases h <;> simp

/-- **A run makes no more moves than are left at its start,** interruptions apart. An interruption costs
nothing and changes nothing that is counted. -/
theorem countP_isOwn_le {start c : Config α ρ σ} {log : List (Act × Bool)}
    (run : Run job capacity start log c) : log.countP isOwn + c.remaining ≤ start.remaining := by
  induction run with
  | start => simp
  | @next log act c d run move ih =>
    rw [List.countP_append, List.countP_singleton]
    cases move with
    | step h =>
      have := remaining_lt_of_step h
      have := ne_interrupt_of_step h
      simp only [isOwn, this, ne_eq, not_false_eq_true, decide_true, if_true]
      omega
    | interrupt => simpa [isOwn, Config.remaining] using ih

theorem exists_step_of_not_ended {c : Config α ρ σ} (hc : c.ended = false)
    (hpending : c.dispatcher = .sending → c.pending ≠ []) : ∃ act d, Step job capacity act c d := by
  rcases moves_of_not_ended hc hpending with ⟨act, d, h, -⟩ | ⟨k, act, d, h, -⟩
  · exact ⟨act, d, h⟩
  · exact ⟨act, d, h⟩

/-- **A run can be led to the end** without interruptions. As long as it has not ended somebody can move,
and the measure says that this stops. -/
theorem exists_run_to_end {wanted : Nat} {items : List α} {shared : σ} {log : List (Act × Bool)}
    {c : Config α ρ σ} (run : Run job capacity (.start wanted items shared) log c) :
    ∃ rest d, Run job capacity (.start wanted items shared) (log ++ rest) d ∧ d.ended = true ∧
      rest.all isOwn = true := by
  cases hc : c.ended with
  | true => exact ⟨[], c, by rwa [List.append_nil], hc, rfl⟩
  | false =>
    obtain ⟨act, d, h⟩ := exists_step_of_not_ended hc (pending_of_sending run)
    have := remaining_lt_of_step h
    obtain ⟨rest, e, hrun, he, hall⟩ := exists_run_to_end (run.next (.step h))
    refine ⟨(act, job.stopped d.shared) :: rest, e, ?_, he, ?_⟩
    · rwa [List.append_assoc] at hrun
    · simpa [isOwn, ne_interrupt_of_step h] using hall
termination_by c.remaining

/-- **The pool cannot get stuck.** In whatever a run has come to, wherever it was interrupted:
somebody can move unless the dispatcher and all workers have come to their end; the dispatcher can
move unless it is done or sends into a full queue while some worker has not stopped, so that a send
is released when all have; a worker can move unless it has stopped or receives from an empty queue
that is not closed, so that a receive is released when the queue is closed; and whatever moves are
made, no more than `remaining` of them lie before the end. -/
theorem never_stuck {wanted : Nat} {items : List α} {shared : σ} {c : Config α ρ σ}
    (reachable : Reachable job capacity (.start wanted items shared) c) :
    (c.ended = false → DispatcherMoves job capacity c ∨ ∃ k, WorkerMoves job capacity c k) ∧
    (c.dispatcher ≠ .done → (DispatcherMoves job capacity c ↔
      (c.dispatcher = .sending →
        c.queue.length < max 1 capacity ∨ ∀ w ∈ c.workers, w.hasExited = true))) ∧
    (∀ k w, c.workers[k]? = some w → w.hasExited = false → (WorkerMoves job capacity c k ↔
      (w = .receiving → c.queue ≠ [] ∨ c.dispatcher = .done))) ∧
    (∀ log d, Run job capacity c log d → log.countP isOwn + d.remaining ≤ c.remaining) := by
  obtain ⟨log, run⟩ := reachable
  have hpending := pending_of_sending run
  refine ⟨?_, ?_, ?_, ?_⟩
  · exact fun hc => moves_of_not_ended hc hpending
  · exact fun hdone => dispatcherMoves_iff hdone hpending
  · exact fun k w hk hw => workerMoves_iff hk hw
  · exact fun log d hrun => countP_isOwn_le hrun

/-- A queue for one item although none was asked for, and one worker that has not looked at the flag
yet: the dispatcher waits with its second item, and the worker can move. -/
theorem never_stuck_full :
    ∃ c, Reachable echo 0 (.start 1 [7, 8] false) c ∧ c.dispatcher = .sending ∧
      c.queue = [(0, 7)] ∧ ¬ DispatcherMoves echo 0 c ∧ WorkerMoves echo 0 c 0 := by
  have ahead : placed [7, 8] = (0, 7) :: [(1, 8)] := rfl
  have h0 : Run echo 0 (.start 1 [7, 8] false) [] (.start 1 [7, 8] false) := .start
  have h1 := h0.next (.step (.proceed rfl (by decide) rfl))
  have h2 := h1.next (.step (.send rfl ahead (by decide) ⟨.checking, List.mem_cons_self, rfl⟩))
  have h3 := h2.next (.step (.proceed rfl (by decide) rfl))
  obtain ⟨-, dispatcher, worker, -⟩ := never_stuck ⟨_, h3⟩
  refine ⟨_, ⟨_, h3⟩, rfl, rfl, ?_, ?_⟩
  · rw [dispatcher (by decide)]
    intro released
    rcases released rfl with room | stopped
    · exact absurd room (by decide)
    · exact absurd (stopped .checking List.mem_cons_self) (by decide)
  · rw [worker 0 .checking rfl rfl]
    intro receiving
    exact absurd receiving (by simp)

/-! ## 4. A single worker that never waits -/

/-- A run by moves of the dispatcher and the workers alone. -/
structure OwnRun (job : Job α ρ σ) (capacity : Nat) (start c : Config α ρ σ)
    (log : List (Act × Bool)) : Prop where
  run : Run job capacity start log c
  own : log.all isOwn = true

theorem OwnRun.next {start c d : Config α ρ σ} {log : List (Act × Bool)} {act : Act}
    (h : OwnRun job capacity start c log) (step : Step job capacity act c d) :
    OwnRun job capacity start d (log ++ [(act, job.stopped d.shared)]) :=
  ⟨h.run.next (.step step), by simp [h.own, isOwn, ne_interrupt_of_step step]⟩

/-- A pool with one worker, between two items: those from place `index` on are left. -/
def Config.between (index : Nat) (items : List α) (results : List (Nat × ρ)) (shared : σ) :
    Config α ρ σ :=
  ⟨(items.zipIdx index).map fun (item, i) => (i, item), .checking, [], [.checking], results, shared⟩

/-- When the queue is closed and empty, a single worker stops. -/
theorem exists_ownRun_of_done {start : Config α ρ σ} {log : List (Act × Bool)}
    {pending : List (Nat × α)} {results : List (Nat × ρ)} {shared : σ}
    (h : OwnRun job capacity start ⟨pending, .done, [], [.checking], results, shared⟩ log) :
    ∃ log c, OwnRun job capacity start c log ∧ c.ended = true ∧ c.results = results ∧
      c.shared = shared := by
  have single : [.checking] = ([] : List (Worker α)) ++ .checking :: [] := rfl
  cases hs : job.stopped shared with
  | true => exact ⟨_, _, h.next (.leave single hs), rfl, rfl, rfl⟩
  | false =>
    have waiting := h.next (.stay single hs)
    exact ⟨_, _, waiting.next (.close rfl rfl rfl), rfl, rfl, rfl⟩

/-- **Working in order is a run of the pool:** one worker and the dispatcher, by turns. By induction on the
items; each of them goes through the queue before the dispatcher looks at the next one. -/
theorem exists_ownRun_inOrder {start : Config α ρ σ} {index : Nat} {items : List α}
    {results : List (Nat × ρ)} {shared : σ} {log : List (Act × Bool)}
    (h : OwnRun job capacity start (.between index items results shared) log) :
    ∃ log c, OwnRun job capacity start c log ∧ c.ended = true ∧
      c.results = results ++ (runInOrder job index items shared).1 ∧
      c.shared = (runInOrder job index items shared).2 := by
  induction items generalizing index results shared log with
  | nil =>
    obtain ⟨log, c, hc, ended, hresults, hshared⟩ :=
      exists_ownRun_of_done (h.next (.finish rfl rfl))
    exact ⟨log, c, hc, ended, by rw [hresults, runInOrder, List.append_nil]; rfl, hshared⟩
  | cons item items ih =>
    cases hs : job.stopped shared with
    | true =>
      obtain ⟨log, c, hc, ended, hresults, hshared⟩ :=
        exists_ownRun_of_done (h.next (.refrain rfl (List.cons_ne_nil _ _) hs))
      refine ⟨log, c, hc, ended, ?_, ?_⟩
      · rw [hresults, runInOrder, if_pos hs, List.append_nil]
        rfl
      · rw [hshared, runInOrder, if_pos hs]
        rfl
    | false =>
      -- The item goes through the queue to the worker before the dispatcher looks at the next one.
      have sending := h.next (.proceed rfl (List.cons_ne_nil _ _) hs)
      have room : 0 < max 1 capacity := Nat.lt_of_lt_of_le Nat.zero_lt_one (Nat.le_max_left 1 _)
      have queued := sending.next (.send rfl rfl room ⟨.checking, List.mem_singleton_self _, rfl⟩)
      have alone : ∀ w : Worker α, [w] = [] ++ w :: [] := fun _ => rfl
      have receiving := queued.next (.stay (alone .checking) hs)
      have working := receiving.next (.receive (alone .receiving) rfl)
      have worked : ∃ log, OwnRun job capacity start
          (.between (index + 1) items (results ++ [(index, (job.perform index item shared).1)])
            (job.perform index item shared).2) log := by
        unfold Job.perform
        cases hr : job.work index item shared with
        | mk r s =>
          cases r with
          | ok r =>
            have reported := working.next (.report (alone (.working index item)) hr)
            exact ⟨_, reported⟩
          | error message =>
            have reported := working.next (.breakOff (alone (.working index item)) hr)
            exact ⟨_, reported⟩
      obtain ⟨log, worked⟩ := worked
      obtain ⟨log, c, hc, ended, hresults, hshared⟩ := ih worked
      refine ⟨log, c, hc, ended, ?_, ?_⟩
      · rw [hresults, runInOrder, if_neg (by simp [hs]), List.append_assoc]
        rfl
      · rw [hshared, runInOrder, if_neg (by simp [hs])]

/-- **What `runInOrder` gives is what a run of a pool with one worker comes to,** whatever the length
of its queue. -/
theorem exists_run_inOrder (job : Job α ρ σ) (capacity : Nat) (items : List α) (shared : σ) :
    ∃ log c, OwnRun job capacity (.start 1 items shared) c log ∧ c.ended = true ∧
      c.results = (runInOrder job 0 items shared).1 ∧
      c.shared = (runInOrder job 0 items shared).2 := by
  have one : workerCount 1 items = 1 := by
    unfold workerCount
    omega
  have begun : OwnRun job capacity (.start 1 items shared)
      (.between 0 items [] shared) [] := by
    refine ⟨?_, rfl⟩
    rw [Config.start, one]
    exact .start
  exact exists_ownRun_inOrder begun

end BlockConfig.Pool
