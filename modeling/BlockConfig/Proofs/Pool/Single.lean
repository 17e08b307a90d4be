import BlockConfig.Proofs.Pool.Cancellation
import BlockConfig.Proofs.Pool.Independence

/-!
One worker works in order.

The dispatcher and the worker still interleave as they like, and the work on an item may change what
they share. What does not change is where it all leads: the items that are left, from the one in hand
through the queue to those not handed out, worked on one after the other from the state at hand
(`Config.conclusion`). A step of the dispatcher or of taking an item only moves the item along this
line, and a report does what the line begins with. So the conclusion is the same from the start to the
end (`conclusion_of_step`, `conclusion_of_ownRun`), and at the end nothing is left
(`results_of_single`).
-/

set_option autoImplicit false

namespace BlockConfig.Pool

variable {α ρ σ : Type} {job : Job α ρ σ} {capacity wanted : Nat} {items : List α} {shared : σ}
  {log : List (Act × Bool)} {c d : Config α ρ σ}

/-! ## 1. What a pool is on its way to -/

/-- The results so far and the state, after the work on one more item. -/
def report (job : Job α ρ σ) (done : List (Nat × ρ) × σ) (x : Nat × α) : List (Nat × ρ) × σ :=
  (done.1 ++ [(x.1, (job.perform x.1 x.2 done.2).1)], (job.perform x.1 x.2 done.2).2)

/-- The item that a worker has in hand, with its place. -/
def Worker.item? : Worker α → Option (Nat × α)
  | working index item => some (index, item)
  | _ => none

/-- The items without a result, in the order in which a single worker comes to them. -/
def Config.left (c : Config α ρ σ) : List (Nat × α) :=
  c.workers.filterMap Worker.item? ++ (c.queue ++ c.pending)

/-- The results and the state when all that is left has been worked on in order. -/
def Config.conclusion (job : Job α ρ σ) (c : Config α ρ σ) : List (Nat × ρ) × σ :=
  c.left.foldl (report job) (c.results, c.shared)

/-- All items in order, from the beginning. -/
def inTurn (job : Job α ρ σ) (items : List α) (shared : σ) : List (Nat × ρ) × σ :=
  (placed items).foldl (report job) ([], shared)

/-- At the start nothing has been done and all items are left, so the conclusion is that of all of them in
turn. -/
theorem conclusion_start : (Config.start wanted items shared).conclusion job =
    inTurn job items shared := by
  have idle : (List.replicate (workerCount wanted items) Worker.checking).filterMap
      (Worker.item? : Worker α → Option (Nat × α)) = [] := by
    rw [List.filterMap_replicate]
    rfl
  rw [Config.conclusion, Config.left, Config.start]
  dsimp only
  rw [idle]
  rfl

/-! ## 2. Steps and runs -/

/-- **A step of a single worker or its dispatcher leads to the same conclusion.** The conclusion is what
comes of all that has not been worked on yet, taken in order. -/
theorem conclusion_of_step {act : Act} (step : Step job capacity act c d)
    (one : c.workers.length = 1) : d.conclusion job = c.conclusion job := by
  cases step with
  | finish | refrain | proceed | giveUp => rfl
  | send _ hp => simp [Config.conclusion, Config.left, hp]
  | leave hw | stay hw | close hw =>
    rw [hw] at one
    obtain ⟨rfl, rfl⟩ := eq_nil_of_length_one one
    simp [Config.conclusion, Config.left, List.filterMap_cons, hw, Worker.item?]
  | receive hw hq =>
    rw [hw] at one
    obtain ⟨rfl, rfl⟩ := eq_nil_of_length_one one
    simp [Config.conclusion, Config.left, List.filterMap_cons, hw, hq, Worker.item?]
  | report hw hr | breakOff hw hr =>
    rw [hw] at one
    obtain ⟨rfl, rfl⟩ := eq_nil_of_length_one one
    simp [Config.conclusion, Config.left, List.filterMap_cons, hw, Worker.item?, Pool.report,
      Job.perform, hr]

/-- With one worker no step changes the conclusion, so it is still that one at the end. -/
theorem conclusion_of_ownRun (h : OwnRun job capacity (.start wanted items shared) c log)
    (one : workerCount wanted items = 1) : c.conclusion job = inTurn job items shared := by
  obtain ⟨run, own⟩ := h
  induction run with
  | start => exact conclusion_start
  | next run move ih =>
    rw [List.all_append, Bool.and_eq_true] at own
    cases move with
    | step step =>
      rw [conclusion_of_step step ((length_workers run).trans one)]
      exact ih own.1
    | interrupt => exact absurd own.2 (by simp [isOwn])

/-- At the end of a run that nobody asked to stop, nothing is left. -/
theorem left_eq_nil (run : Run job capacity (.start wanted items shared) log c)
    (never : NeverStopped job shared log) (ended : c.ended = true) : c.left = [] := by
  obtain ⟨quiet, -⟩ := unhurried_of_run run never
  simp only [Config.ended, Bool.and_eq_true, List.all_eq_true, decide_eq_true_eq] at ended
  obtain ⟨w, hmem⟩ := List.exists_mem_of_ne_nil _ quiet.staffed
  have idle : c.workers.filterMap Worker.item? = [] := by
    refine List.filterMap_eq_nil_iff.2 fun w hw => ?_
    have exited := ended.2 w hw
    cases w with
    | exited => rfl
    | checking | receiving | working => cases exited
  rw [Config.left, idle, (quiet.exited w hmem (ended.2 w hmem)).2, quiet.closed ended.1]
  rfl

/-- **A single worker does what working in order does,** however it and the dispatcher interleave. At the
end nothing is left, so the conclusion is what has been reached. -/
theorem results_of_single (h : OwnRun job capacity (.start wanted items shared) c log)
    (one : workerCount wanted items = 1) (never : NeverStopped job shared log)
    (ended : c.ended = true) : (c.results, c.shared) = inTurn job items shared := by
  rw [← conclusion_of_ownRun h one, Config.conclusion, left_eq_nil h.run never ended]
  rfl

end BlockConfig.Pool
