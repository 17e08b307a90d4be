import BlockConfig.Proofs.Pool.Progress
import Mathlib.Data.List.Induction
import Mathlib.Data.List.Perm.Subperm

/-!
How far a pool runs on when it is asked to stop.

The flag is looked at before an item is sent and before one is taken, and between the look and the
act anything may happen. So when the flag is set, the dispatcher may be past its look, and so may
every worker; but nobody passes a look again, as the flag is not taken back (`Job.KeepsFlag`). What
can still be sent or taken is therefore counted by who stands behind a look (`Dispatcher.sends`,
`Config.awaits`), and every send and every take uses that up.

An item that nobody took, before or in this rest of the run, is reported as skipped. With one worker
the items are taken in order (`Config.line`), and if the flag is set while the worker has an item in
hand it does not stand behind a look: this item is the last one.
-/

set_option autoImplicit false

namespace BlockConfig

/-- Work that does not take the flag back, once it is set, and setting it sets it. -/
structure Job.KeepsFlag {α ρ σ : Type} (job : Job α ρ σ) : Prop where
  work : ∀ index item s, job.stopped s = true → job.stopped (job.work index item s).2 = true
  stop : ∀ s, job.stopped (job.stop s) = true

namespace Pool

variable {α ρ σ : Type} {job : Job α ρ σ} {capacity : Nat}

/-! ## 1. What a log tells -/

namespace Act

/-- The place of the item that is put into the queue. -/
def sent? : Act → Option Nat
  | send index => some index
  | _ => none

/-- The worker that takes an item. -/
def hand? : Act → Option Nat
  | take worker _ => some worker
  | _ => none

/-- The place for which a result is reported. -/
def reported? : Act → Option Nat
  | report _ index => some index
  | _ => none

end Act

/-- The places of the items that were put into the queue. -/
def sent (log : List (Act × Bool)) : List Nat :=
  log.filterMap fun entry => entry.1.sent?

/-- The workers that took an item, each as often as it took one. -/
def hands (log : List (Act × Bool)) : List Nat :=
  log.filterMap fun entry => entry.1.hand?

/-- The places for which a result was reported. -/
def reported (log : List (Act × Bool)) : List Nat :=
  log.filterMap fun entry => entry.1.reported?

/-- Somebody has taken the item at place `i` and has not reported a result for it. -/
def UnderWay (i : Nat) (log : List (Act × Bool)) : Prop :=
  takers i log ≠ [] ∧ i ∉ reported log

/-- What is picked out of a log grows with its last entry. -/
theorem filterMap_concat {β : Type} (f : Act → Option β) (log : List (Act × Bool)) (act : Act)
    (flag : Bool) :
    ((log ++ [(act, flag)]).filterMap fun entry => f entry.1) =
      (log.filterMap fun entry => f entry.1) ++ (f act).toList := by
  rw [List.filterMap_append, List.filterMap_cons, List.filterMap_nil]
  cases f act <;> rfl

/-- Who took items can be told from the parts of a log. -/
theorem takers_append (i : Nat) (front back : List (Act × Bool)) :
    takers i (front ++ back) = takers i front ++ takers i back :=
  List.filterMap_append

/-- Who took an item is among the workers that took any. -/
theorem takers_eq_nil_of_hands {log : List (Act × Bool)} (h : hands log = []) (i : Nat) :
    takers i log = [] := by
  simp only [hands, takers, List.filterMap_eq_nil_iff] at h ⊢
  intro entry hmem
  have := h entry hmem
  generalize entry.1 = act at this ⊢
  cases act <;> simp_all [Act.hand?, Act.taker?]

/-! ## 2. Parts of runs -/

/-- A run with one more move behind it. -/
theorem run_concat_iff {start c : Config α ρ σ} {log : List (Act × Bool)} {entry : Act × Bool} :
    Run job capacity start (log ++ [entry]) c ↔
      ∃ b, Run job capacity start log b ∧ Move job capacity entry.1 b c ∧
        entry.2 = job.stopped c.shared := by
  constructor
  · intro run
    generalize hlog : log ++ [entry] = whole at run
    cases run with
    | start => exact absurd hlog (by simp)
    | next run move =>
      obtain ⟨rfl, rfl⟩ := List.append_singleton_inj.1 hlog
      exact ⟨_, run, move, rfl⟩
  · rintro ⟨b, run, move, hflag⟩
    obtain ⟨act, flag⟩ := entry
    obtain rfl : flag = job.stopped c.shared := hflag
    exact run.next move

/-- A run passes through a configuration at every point of its log. -/
theorem exists_of_run_append {start c : Config α ρ σ} {front back : List (Act × Bool)}
    (run : Run job capacity start (front ++ back) c) :
    ∃ d, Run job capacity start front d ∧ Run job capacity d back c := by
  induction back using List.reverseRecOn generalizing c with
  | nil => exact ⟨c, by rwa [List.append_nil] at run, .start⟩
  | append_singleton back entry ih =>
    rw [← List.append_assoc] at run
    obtain ⟨b, run, move, hflag⟩ := run_concat_iff.1 run
    obtain ⟨d, hfront, hback⟩ := ih run
    exact ⟨d, hfront, run_concat_iff.2 ⟨b, hback, move, hflag⟩⟩

/-- A run comes by every entry of its log with a move. -/
theorem exists_of_run_cons {start c : Config α ρ σ} {front back : List (Act × Bool)}
    {entry : Act × Bool} (run : Run job capacity start (front ++ entry :: back) c) :
    ∃ b d, Run job capacity start front b ∧ Move job capacity entry.1 b d ∧
      entry.2 = job.stopped d.shared ∧ Run job capacity d back c := by
  rw [List.append_cons] at run
  obtain ⟨d, hd, rest⟩ := exists_of_run_append run
  obtain ⟨b, hb, move, hflag⟩ := run_concat_iff.1 hd
  exact ⟨b, d, hb, move, hflag, rest⟩

/-- What somebody took is in a hand or has a result. -/
theorem takers_ne_nil_iff {wanted : Nat} {items : List α} {shared : σ} {log : List (Act × Bool)}
    {c : Config α ρ σ} (run : Run job capacity (.start wanted items shared) log c) (i : Nat) :
    takers i log ≠ [] ↔ i ∈ c.inHand ∨ i ∈ c.completed := by
  have hcount := length_takers run i
  rw [← List.length_pos_iff, hcount, ← List.count_pos_iff, ← List.count_pos_iff]
  omega

/-! ## 3. What is sent and taken once the flag is set -/

/-- How many items the dispatcher can send without looking at the flag. -/
def Dispatcher.sends : Dispatcher → Nat
  | sending => 1
  | _ => 0

/-- How many items a worker can take without looking at the flag. -/
def Worker.awaits : Worker α → Nat
  | receiving => 1
  | _ => 0

/-- How many items worker number `k` can take without looking at the flag. -/
def Config.awaits (c : Config α ρ σ) (k : Nat) : Nat :=
  (c.workers[k]?.map Worker.awaits).getD 0

/-- A worker has at most one item ahead of it. -/
theorem Config.awaits_le_one (c : Config α ρ σ) (k : Nat) : c.awaits k ≤ 1 := by
  rw [awaits]
  cases c.workers[k]? with
  | none => exact Nat.zero_le 1
  | some w => cases w <;> simp [Worker.awaits]

/-- Only workers that exist wait for one. -/
theorem Config.lt_of_awaits {c : Config α ρ σ} {k : Nat} (h : 0 < c.awaits k) :
    k < c.workers.length := by
  by_contra hk
  rw [awaits, List.getElem?_eq_none (Nat.not_lt.1 hk)] at h
  exact absurd h (by simp)

theorem Config.awaits_self {c : Config α ρ σ} {front back : List (Worker α)} {w : Worker α}
    (hc : c.workers = front ++ w :: back) : c.awaits front.length = w.awaits := by
  rw [awaits, hc, getElem?_length_append, Option.map_some, Option.getD_some]

/-- When one worker moves, the others wait as before. -/
theorem Config.awaits_other {c d : Config α ρ σ} {front back : List (Worker α)} {v w : Worker α}
    (hc : c.workers = front ++ w :: back) (hd : d.workers = front ++ v :: back) {k : Nat}
    (hk : k ≠ front.length) : d.awaits k = c.awaits k := by
  have same : d.workers[k]? = c.workers[k]? := by
    by_contra hne
    rw [hc, hd] at hne
    exact hk (eq_length_of_getElem?_ne hne)
  rw [awaits, awaits, same]

/-- A worker that goes on to anything but receiving. -/
theorem Config.awaits_replace {c d : Config α ρ σ} {front back : List (Worker α)} {v w : Worker α}
    (hc : c.workers = front ++ w :: back) (hd : d.workers = front ++ v :: back)
    (hv : v.awaits = 0) (k : Nat) : d.awaits k ≤ c.awaits k := by
  by_cases hk : k = front.length
  · rw [hk, awaits_self hd, hv]
    exact Nat.zero_le _
  · exact Nat.le_of_eq (awaits_other hc hd hk)

/-- Once the flag is up, the dispatcher sends no more than what it is about to send. -/
theorem sends_of_step {act : Act} {c d : Config α ρ σ} (h : Step job capacity act c d)
    (hflag : job.stopped c.shared = true) :
    act.sent?.toList.length + d.dispatcher.sends ≤ c.dispatcher.sends := by
  cases h with
  | finish | refrain | giveUp => simp [Act.sent?, Dispatcher.sends]
  | proceed _ _ hs => exact absurd hflag (by simp [hs])
  | send hd => simp [Act.sent?, Dispatcher.sends, hd]
  | leave | stay | receive | close | report | breakOff => simp [Act.sent?]

/-- Once the flag is up, a worker takes no more than the one item that it waits for. Each step uses up some
of that bound, and no step adds to it. -/
theorem awaits_of_step {act : Act} {c d : Config α ρ σ} (h : Step job capacity act c d)
    (hflag : job.stopped c.shared = true) (k : Nat) :
    act.hand?.toList.count k + d.awaits k ≤ c.awaits k := by
  cases h with
  | finish | refrain | proceed | send | giveUp => simp [Act.hand?, Config.awaits]
  | stay _ hs => exact absurd hflag (by simp [hs])
  | leave hw | close hw | report hw | breakOff hw =>
    simpa [Act.hand?] using Config.awaits_replace hw rfl rfl k
  | @receive _ front back x rest hw hq =>
    by_cases hk : k = front.length
    · rw [hk, Config.awaits_self hw, Config.awaits_self rfl]
      simp [Act.hand?, Worker.awaits]
    · rw [Config.awaits_other hw rfl hk]
      simp [Act.hand?, Ne.symm hk]

/-- The flag stays up if the calls keep it. -/
theorem stopped_of_move (keeps : job.KeepsFlag) {act : Act} {c d : Config α ρ σ}
    (h : Move job capacity act c d) (hflag : job.stopped c.shared = true) :
    job.stopped d.shared = true := by
  cases h with
  | interrupt => exact keeps.stop c.shared
  | step h =>
    cases h with
    | finish | refrain | proceed | send | giveUp | leave | stay | receive | close => exact hflag
    | @report _ _ _ index item _ _ _ hr | @breakOff _ _ _ index item _ _ _ hr =>
      have := keeps.work index item c.shared hflag
      rwa [hr] at this

/-- **What can be sent and taken is used up.** Once the flag is up, the dispatcher sends what it is about to
send, and each worker takes what it waits for; no step gives them more. -/
theorem overshoot {d c : Config α ρ σ} {log : List (Act × Bool)} (keeps : job.KeepsFlag)
    (hflag : job.stopped d.shared = true) (run : Run job capacity d log c) :
    job.stopped c.shared = true ∧
    (sent log).length + c.dispatcher.sends ≤ d.dispatcher.sends ∧
    ∀ k, (hands log).count k + c.awaits k ≤ d.awaits k := by
  induction run with
  | start => exact ⟨hflag, by simp [sent], fun k => by simp [hands]⟩
  | @next log act b c run move ih =>
    obtain ⟨hb, hsent, hhands⟩ := ih
    refine ⟨stopped_of_move keeps move hb, ?_, fun k => ?_⟩
    · rw [sent, filterMap_concat, List.length_append, ← sent]
      cases move with
      | interrupt => simpa [Act.sent?] using hsent
      | step h =>
        have := sends_of_step h hb
        omega
    · have hk := hhands k
      rw [hands, filterMap_concat, List.count_append, ← hands]
      cases move with
      | interrupt => simpa [Act.hand?, Config.awaits] using hk
      | step h =>
        have := awaits_of_step h hb k
        omega

/-! ## 4. The move that sets the flag -/

/-- No worker is added or taken away. -/
theorem length_workers_of_step {act : Act} {c d : Config α ρ σ} (h : Step job capacity act c d) :
    d.workers.length = c.workers.length := by
  cases h with
  | finish | refrain | proceed | send | giveUp => rfl
  | leave hw | stay hw | receive hw | close hw | report hw | breakOff hw => simp [hw]

/-- All the time there are as many workers as were started. -/
theorem length_workers {wanted : Nat} {items : List α} {shared : σ} {log : List (Act × Bool)}
    {c : Config α ρ σ} (run : Run job capacity (.start wanted items shared) log c) :
    c.workers.length = workerCount wanted items := by
  generalize hstart : Config.start wanted items shared = start at run
  induction run with
  | start =>
    subst hstart
    exact List.length_replicate
  | next _ move ih =>
    cases move with
    | step h => rw [length_workers_of_step h, ih]
    | interrupt => exact ih

/-- Only the end of an item's work and an interruption set the flag, so nothing is sent or taken
with that move, and nobody gets behind a look by it. -/
theorem of_sets_flag {act : Act} {b d : Config α ρ σ} (move : Move job capacity act b d)
    (hb : job.stopped b.shared = false) (hd : job.stopped d.shared = true) :
    (∀ i, act.taker? i = none) ∧ ∀ k, d.awaits k ≤ b.awaits k := by
  cases move with
  | interrupt => exact ⟨fun i => rfl, fun k => Nat.le_refl _⟩
  | step h =>
    cases h with
    | finish | refrain | proceed | send | giveUp | leave | stay | receive | close =>
      exact absurd hd (by simp [hb])
    | report hw | breakOff hw =>
      exact ⟨fun i => rfl, Config.awaits_replace hw rfl rfl⟩

/-! ## 5. One worker -/

/-- All places in the order in which a single worker comes to them. -/
def Config.line (c : Config α ρ σ) : List Nat :=
  c.completed ++ (c.inHand ++ (c.queue.map Prod.fst ++ c.pending.map Prod.fst))

/-- A single worker in a list of workers. -/
theorem eq_nil_of_length_one {front back : List (Worker α)} {w : Worker α}
    (h : (front ++ w :: back).length = 1) : front = [] ∧ back = [] := by
  rw [List.length_append, List.length_cons] at h
  exact ⟨List.length_eq_zero_iff.1 (by omega), List.length_eq_zero_iff.1 (by omega)⟩

/-- With one worker the line is the same all the time: a step moves items from one part of it to the next
and never past each other. -/
theorem line_of_step {act : Act} {c d : Config α ρ σ} (h : Step job capacity act c d)
    (hone : c.workers.length = 1) : d.line = c.line := by
  cases h with
  | finish | refrain | proceed | giveUp => rfl
  | send _ hp => simp [Config.line, Config.inHand, Config.completed, hp]
  | leave hw | stay hw | receive hw _ | close hw | report hw | breakOff hw =>
    rw [hw] at hone
    obtain ⟨rfl, rfl⟩ := eq_nil_of_length_one hone
    simp [Config.line, Config.inHand, Config.completed, List.filterMap_cons, Worker.inHand?, *]

/-- **A single worker takes the items in order.** Its results, what it has in its hand, the queue and what
is pending stand in line, and a step moves an item along it. -/
theorem line_eq_range {wanted : Nat} {items : List α} {shared : σ} {log : List (Act × Bool)}
    {c : Config α ρ σ} (run : Run job capacity (.start wanted items shared) log c)
    (hone : workerCount wanted items = 1) : c.line = List.range items.length := by
  generalize hstart : Config.start wanted items shared = start at run
  induction run with
  | start =>
    subst hstart
    have := places_start (ρ := ρ) wanted items shared
    simpa [Config.line, Config.places, Config.start, Config.inHand, Config.completed,
      List.filterMap_replicate, Worker.inHand?] using this
  | next run move ih =>
    subst hstart
    cases move with
    | step h => rw [line_of_step h ((length_workers run).trans hone), ih]
    | interrupt => exact ih

/-- A beginning of the numbers in order. -/
theorem eq_range_of_append {front back : List Nat} {n : Nat} (h : front ++ back = List.range n) :
    front = List.range front.length := by
  have hlen := congrArg List.length h
  rw [List.length_append, List.length_range] at hlen
  calc front = (front ++ back).take front.length := by rw [List.take_left']; rfl
    _ = List.range (min front.length n) := by rw [h, List.take_range]
    _ = List.range front.length := by rw [Nat.min_eq_left (by omega)]

/-- What has been completed grows with what is reported. -/
theorem completed_of_step {act : Act} {c d : Config α ρ σ} (h : Step job capacity act c d) :
    d.completed = c.completed ++ act.reported?.toList := by
  cases h <;> simp [Config.completed, Act.reported?]

/-- At any time the completed items are those of the log. -/
theorem completed_eq_reported {wanted : Nat} {items : List α} {shared : σ}
    {log : List (Act × Bool)} {c : Config α ρ σ}
    (run : Run job capacity (.start wanted items shared) log c) : c.completed = reported log := by
  generalize hstart : Config.start wanted items shared = start at run
  induction run with
  | start =>
    subst hstart
    rfl
  | @next log act b c _ move ih =>
    rw [reported, filterMap_concat, ← reported]
    cases move with
    | step h => rw [completed_of_step h, ih]
    | interrupt => simpa [Config.completed, Act.reported?] using ih

/-- What a single worker has in hand is behind what it has done. -/
theorem completed_of_underWay {wanted : Nat} {items : List α} {shared : σ}
    {log : List (Act × Bool)} {c : Config α ρ σ}
    (run : Run job capacity (.start wanted items shared) log c)
    (hone : workerCount wanted items = 1) {i : Nat} (under : UnderWay i log) :
    (∃ item, c.workers = [.working i item]) ∧ c.completed = List.range i := by
  obtain ⟨htaken, hreported⟩ := under
  rw [← completed_eq_reported run] at hreported
  have hmem : i ∈ c.inHand := ((takers_ne_nil_iff run i).1 htaken).resolve_right hreported
  obtain ⟨w, hw⟩ := List.length_eq_one_iff.1 ((length_workers run).trans hone)
  cases w with
  | working index item =>
    obtain rfl : i = index := by simpa [Config.inHand, hw, Worker.inHand?] using hmem
    have hline := line_eq_range run hone
    simp only [Config.line, Config.inHand, hw, List.filterMap_cons, Worker.inHand?,
      List.filterMap_nil, List.cons_append, List.nil_append] at hline
    have hbegin := eq_range_of_append hline
    -- What is in hand stands in line behind what is completed.
    have hlen : i = c.completed.length := by
      have hget : (List.range items.length)[c.completed.length]? = some i := by
        rw [← hline, List.getElem?_append_right (Nat.le_refl _), Nat.sub_self,
          List.getElem?_cons_zero]
      obtain ⟨_, hi⟩ := List.getElem?_eq_some_iff.1 hget
      rw [← hi, List.getElem_range]
    exact ⟨⟨item, hw⟩, hlen ▸ hbegin⟩
  | _ => simp [Config.inHand, hw, Worker.inHand?] at hmem

/-- The work on an item ends when it is under way. -/
theorem underWay_of_report {wanted : Nat} {items : List α} {shared : σ}
    {log : List (Act × Bool)} {b d : Config α ρ σ} {worker i : Nat}
    (run : Run job capacity (.start wanted items shared) log b)
    (move : Move job capacity (.report worker i) b d) : UnderWay i log := by
  have hmem : i ∈ b.inHand := by
    cases move with
    | step h =>
      cases h with
      | report hw | breakOff hw =>
        rw [Config.inHand, hw, List.filterMap_append]
        simp [Worker.inHand?]
  refine ⟨(takers_ne_nil_iff run i).2 (.inl hmem), ?_⟩
  have hpos := List.count_pos_iff.2 hmem
  have hle := count_completed_le run i
  rw [← completed_eq_reported run, ← List.count_eq_zero]
  split at hle <;> omega

/-! ## 6. What is left undone -/

/-- At the end of a run, what nobody took has no result. -/
theorem mem_skipped_iff_takers {wanted : Nat} {items : List α} {shared : σ}
    {log : List (Act × Bool)} {c : Config α ρ σ}
    (run : Run job capacity (.start wanted items shared) log c) (ended : c.ended = true) (i : Nat) :
    i ∈ skipped items.length c.results ↔ i < items.length ∧ takers i log = [] := by
  have htaken := takers_ne_nil_iff run i
  simp only [inHand_of_ended ended, List.not_mem_nil, false_or] at htaken
  rw [mem_skipped_iff, ← Config.completed, ← htaken, not_ne_iff]

/-- A single worker that took the items up to item `i` and no others has completed these. -/
theorem completed_of_takers {wanted : Nat} {items : List α} {shared : σ}
    {log : List (Act × Bool)} {c : Config α ρ σ}
    (run : Run job capacity (.start wanted items shared) log c) (ended : c.ended = true)
    (hone : workerCount wanted items = 1) {i : Nat} (taken : ∀ j, takers j log ≠ [] ↔ j ≤ i) :
    c.completed = List.range (i + 1) := by
  have hline := line_eq_range run hone
  rw [Config.line, inHand_of_ended ended, List.nil_append] at hline
  have hbegin := eq_range_of_append hline
  have hmem : ∀ j, j < c.completed.length ↔ j ≤ i := by
    intro j
    have htaken := takers_ne_nil_iff run j
    rw [inHand_of_ended ended, taken, hbegin, List.mem_range] at htaken
    simpa using htaken.symm
  have hlow := (hmem i).2 (Nat.le_refl i)
  have hhigh := mt (hmem (i + 1)).1 (by omega)
  rw [hbegin, show c.completed.length = i + 1 by omega]

/-- **A pool that is asked to stop runs on by little.** Let the flag be set by some move of a run,
and by none before it. From then on the dispatcher sends one item at most, and the workers take one
item each at most. When the run has come to its end, the items that were taken neither before nor
from then on are those that are skipped. In particular, if there is one worker and the flag is set
by the work on item `i`, at its end or while it is under way, then items `0` to `i` are completed,
in this order, and all later ones are skipped. -/
theorem overshoot_bounded (keeps : job.KeepsFlag) {wanted : Nat} {items : List α} {shared : σ}
    {before after : List (Act × Bool)} {act : Act} {c : Config α ρ σ}
    (run : Run job capacity (.start wanted items shared) (before ++ (act, true) :: after) c)
    (first : NeverStopped job shared before) :
    (sent after).length ≤ 1 ∧
    (hands after).Nodup ∧ (hands after).length ≤ workerCount wanted items ∧
    (c.ended = true → ∀ i, i ∈ skipped items.length c.results ↔
      i < items.length ∧ takers i before = [] ∧ takers i after = []) ∧
    (workerCount wanted items = 1 → c.ended = true →
      ∀ i, (∃ worker, act = .report worker i) ∨ UnderWay i before →
        c.completed = List.range (i + 1) ∧
        ∀ j, j ∈ skipped items.length c.results ↔ i < j ∧ j < items.length) := by
  obtain ⟨b, d, front, move, hflag, rest⟩ := exists_of_run_cons run
  obtain ⟨hact, hawaits⟩ := of_sets_flag move (unhurried_of_run front first).2 hflag.symm
  obtain ⟨-, hsent, hhands⟩ := overshoot keeps hflag.symm rest
  have hworkers := length_workers (run_concat_iff.2 ⟨b, front, move, hflag⟩)
  have nodup : (hands after).Nodup := by
    rw [List.nodup_iff_count_le_one]
    intro k
    have := hhands k
    have := d.awaits_le_one k
    omega
  have htakers : ∀ i, takers i (before ++ (act, true) :: after) = [] ↔
      takers i before = [] ∧ takers i after = [] := by
    intro i
    have hone : takers i [(act, true)] = [] := by simp [takers, hact]
    rw [List.append_cons, takers_append, takers_append, hone, List.append_nil,
      List.append_eq_nil_iff]
  have hskipped : c.ended = true → ∀ i, i ∈ skipped items.length c.results ↔
      i < items.length ∧ takers i before = [] ∧ takers i after = [] := by
    intro ended i
    rw [mem_skipped_iff_takers run ended, htakers]
  refine ⟨?_, nodup, ?_, hskipped, ?_⟩
  · have : d.dispatcher.sends ≤ 1 := by cases d.dispatcher <;> simp [Dispatcher.sends]
    omega
  · have hsub : hands after ⊆ List.range (workerCount wanted items) := by
      intro k hk
      have := List.count_pos_iff.2 hk
      have := hhands k
      rw [List.mem_range, ← hworkers]
      exact Config.lt_of_awaits (by omega)
    have := (List.Nodup.subperm nodup hsub).length_le
    rwa [List.length_range] at this
  · intro hone ended i hi
    have under : UnderWay i before := by
      rcases hi with ⟨worker, rfl⟩ | under
      · exact underWay_of_report front move
      · exact under
    obtain ⟨⟨item, hw⟩, hbcompleted⟩ := completed_of_underWay front hone under
    -- The only worker has the item in hand, so nobody stands behind a look.
    have hnone : hands after = [] := by
      refine List.eq_nil_iff_forall_not_mem.2 fun k hk => ?_
      have hzero : b.awaits k = 0 := by
        rw [Config.awaits, hw]
        cases k <;> simp [Worker.awaits]
      have := List.count_pos_iff.2 hk
      have := hhands k
      have := hawaits k
      omega
    have htaken : ∀ j, takers j (before ++ (act, true) :: after) ≠ [] ↔ j ≤ i := by
      intro j
      have hfront := takers_ne_nil_iff front j
      rw [hbcompleted, Config.inHand, hw] at hfront
      rw [Ne, htakers, takers_eq_nil_of_hands hnone, eq_self, and_true, ← Ne, hfront]
      simp [Worker.inHand?]
      omega
    refine ⟨completed_of_takers run ended hone htaken, fun j => ?_⟩
    rw [mem_skipped_iff_takers run ended, ← not_ne_iff, htaken, Nat.not_le, and_comm]

/-- Work that gives every item back; the work on an eight sets the flag. -/
def alarm : Job Nat Nat Bool where
  work := fun _ item flag => (.ok item, flag || item == 8)
  onAbort := fun _ message => message.length
  stopped := id
  stop := fun _ => true

/-- The second of four items sets the flag when the dispatcher has looked at it already: a third item
is sent and not taken. -/
theorem overshoot_bounded_alarm :
    alarm.KeepsFlag ∧ ∃ before after c,
      Run alarm 1 (.start 1 [5, 8, 9, 9] false) (before ++ (.report 0 1, true) :: after) c ∧
      NeverStopped alarm false before ∧ c.ended = true ∧ sent after = [2] ∧ hands after = [] ∧
      (sent after).length ≤ 1 ∧ c.completed = List.range 2 ∧
      ∀ j, j ∈ skipped 4 c.results ↔ 1 < j ∧ j < 4 := by
  have keeps : alarm.KeepsFlag := ⟨fun _ _ s h => by simp_all [alarm], fun _ => rfl⟩
  have alone (w : Worker Nat) : [w] = [] ++ w :: [] := rfl
  have staffed (w : Worker Nat) (h : w.hasExited = false) : ∃ v ∈ [w], v.hasExited = false :=
    ⟨w, List.mem_cons_self, h⟩
  let before : List (Act × Bool) :=
    [(.look, false), (.send 0, false), (.look, false), (.take 0 0, false), (.report 0 0, false),
      (.look, false), (.send 1, false), (.look, false), (.take 0 1, false), (.look, false)]
  let after : List (Act × Bool) := [(.send 2, true), (.close, true), (.exit 0, true)]
  have h0 : Run alarm 1 (.start 1 [5, 8, 9, 9] false) []
      ⟨[(0, 5), (1, 8), (2, 9), (3, 9)], .checking, [], [.checking], [], false⟩ := .start
  have h1 := h0.next (.step (.proceed rfl (by decide) rfl))
  have h2 := h1.next (.step (.send rfl rfl (by decide) (staffed .checking rfl)))
  have h3 := h2.next (.step (.stay (alone .checking) rfl))
  have h4 := h3.next (.step (.receive (alone .receiving) rfl))
  have h5 := h4.next (.step (.report (alone (.working 0 5)) rfl))
  have h6 := h5.next (.step (.proceed rfl (by decide) rfl))
  have h7 := h6.next (.step (.send rfl rfl (by decide) (staffed .checking rfl)))
  have h8 := h7.next (.step (.stay (alone .checking) rfl))
  have h9 := h8.next (.step (.receive (alone .receiving) rfl))
  -- One item is finished, the second is in work, and the dispatcher has looked at the flag for the last
  -- time.
  have h10 : Run alarm 1 (.start 1 [5, 8, 9, 9] false) before
      ⟨[(2, 9), (3, 9)], .sending, [], [.working 1 8], [(0, 5)], false⟩ :=
    h9.next (.step (.proceed rfl (by decide) rfl))
  have h11 := h10.next (.step (.report (alone (.working 1 8)) rfl))
  have h12 := h11.next (.step (.send rfl rfl (by decide) (staffed .checking rfl)))
  have h13 := h12.next (.step (.refrain rfl (by decide) rfl))
  have h14 : Run alarm 1 (.start 1 [5, 8, 9, 9] false) (before ++ (.report 0 1, true) :: after)
      ⟨[(3, 9)], .done, [(2, 9)], [.exited], [(0, 5), (1, 8)], true⟩ :=
    h13.next (.step (.leave (alone .checking) rfl))
  have first : NeverStopped alarm false before := ⟨rfl, by decide⟩
  obtain ⟨hsent, -, -, -, hone⟩ := overshoot_bounded keeps h14 first
  obtain ⟨hcompleted, hskipped⟩ := hone rfl rfl 1 (.inl ⟨0, rfl⟩)
  exact ⟨keeps, before, after, _, h14, first, rfl, rfl, rfl, hsent, hcompleted, hskipped⟩

end Pool

end BlockConfig
