import BlockConfig.Pool
import Mathlib.Data.List.Nodup
import Mathlib.Tactic.ByContra

/-!
A pool loses no item and hands none out twice.

The argument is a count. At every point of a run the place of each item stands exactly once in one
of four lists: the items not yet in the queue, the queue, the hands of the workers, and the results
(`Config.places`). A move only carries places from one of these lists to the next, so a run keeps
`places` up to order (`places_perm`), and at the start it is `0, 1, …, n - 1`. At the end of a run no
worker has anything in hand, so a place is missing from the results exactly if its item stayed
behind in one of the first two lists -- and those are the places that are reported as skipped.

Two more counts are kept beside it. How often a place has been taken from the queue is how often it
is in a hand or in the results (`length_takers`), which is at most once. And as long as nobody sees
the flag, a worker only stops when the queue is empty and closed, and it is only closed when nothing
is left to hand out (`Unhurried`).
-/

set_option autoImplicit false

namespace BlockConfig.Pool

variable {α ρ σ : Type} {job : Job α ρ σ} {capacity : Nat}

/-! ## 1. Where an item is -/

namespace Worker

/-- The place of the item that a worker has in hand. -/
def inHand? : Worker α → Option Nat
  | working index _ => some index
  | _ => none

theorem inHand?_of_hasExited {w : Worker α} (h : w.hasExited = true) : w.inHand? = none := by
  cases w <;> simp_all [hasExited, inHand?]

end Worker

namespace Config

/-- The places of the items that workers have in hand. -/
def inHand (c : Config α ρ σ) : List Nat :=
  c.workers.filterMap Worker.inHand?

/-- The places that have a result, in the order in which the results came. -/
def completed (c : Config α ρ σ) : List Nat :=
  c.results.map Prod.fst

/-- The places of all items, wherever they are. -/
def places (c : Config α ρ σ) : List Nat :=
  c.pending.map Prod.fst ++ (c.queue.map Prod.fst ++ (c.inHand ++ c.completed))

theorem count_places (c : Config α ρ σ) (i : Nat) :
    c.places.count i = (c.pending.map Prod.fst).count i + (c.queue.map Prod.fst).count i +
      c.inHand.count i + c.completed.count i := by
  rw [places, List.count_append, List.count_append, List.count_append]
  omega

/-- What a pool of workers has in hand, read off a worker and those before and behind it. -/
theorem count_inHand {c : Config α ρ σ} {front back : List (Worker α)} {w : Worker α}
    (hw : c.workers = front ++ w :: back) (i : Nat) :
    c.inHand.count i = (front.filterMap Worker.inHand?).count i +
      w.inHand?.toList.count i + (back.filterMap Worker.inHand?).count i := by
  rw [inHand, hw, List.filterMap_append, List.filterMap_cons, List.count_append]
  cases w.inHand? with
  | none => simp
  | some index => simp only [Option.toList_some, List.count_cons, List.count_nil]; omega

end Config

/-- The worker that takes the item at place `i`, if that is what is done. -/
def Act.taker? (i : Nat) : Act → Option Nat
  | take worker index => if index = i then some worker else none
  | _ => none

/-- How often a place is in a hand or among the results changes only when its item is taken. -/
theorem count_started_of_step {act : Act} {c d : Config α ρ σ} (h : Step job capacity act c d)
    (i : Nat) :
    d.inHand.count i + d.completed.count i =
      c.inHand.count i + c.completed.count i + (act.taker? i).toList.length := by
  cases h with
  | finish | refrain | proceed | send | giveUp =>
    simp [Config.inHand, Config.completed, Act.taker?]
  | leave hw | stay hw | close hw =>
    rw [Config.count_inHand hw, Config.count_inHand rfl]
    simp [Worker.inHand?, Config.completed, Act.taker?]
  | @receive _ front back x rest hw hq =>
    rw [Config.count_inHand hw, Config.count_inHand rfl]
    by_cases hx : x.1 = i
    · simp [Worker.inHand?, Config.completed, Act.taker?, hx]
      omega
    · simp [Worker.inHand?, Config.completed, Act.taker?, hx]
  | @report _ front back index item _ _ hw | @breakOff _ front back index item _ _ hw =>
    rw [Config.count_inHand hw, Config.count_inHand rfl]
    by_cases hx : index = i
    · simp [Worker.inHand?, Config.completed, Act.taker?, hx]
      omega
    · simp [Worker.inHand?, Config.completed, Act.taker?, hx]

/-- **A step moves places and neither drops nor copies one.** Sending moves one from the pending items to
the queue, and receiving moves one from there to a hand; no other step touches these. -/
theorem count_places_of_step {act : Act} {c d : Config α ρ σ} (h : Step job capacity act c d)
    (i : Nat) : d.places.count i = c.places.count i := by
  have started := count_started_of_step h i
  rw [Config.count_places, Config.count_places]
  cases h with
  | finish | refrain | proceed | giveUp | leave | stay | close | report | breakOff =>
    simp only [Act.taker?, Option.toList_none, List.length_nil] at started ⊢
    omega
  | @send _ x rest hd hp hq hw =>
    simp only [Act.taker?, Option.toList_none, List.length_nil] at started
    by_cases hx : x.1 = i <;> simp [hp, hx] <;> omega
  | @receive _ front back x rest hw hq =>
    by_cases hx : x.1 = i <;> simp [Act.taker?, hq, hx] at started ⊢ <;> omega

/-! ## 2. Whole runs -/

theorem placed_fst (items : List α) :
    (placed items).map Prod.fst = List.range items.length := by
  rw [placed, List.map_map, List.range_eq_range']
  exact List.zipIdx_map_snd 0 items

theorem places_start (wanted : Nat) (items : List α) (shared : σ) :
    (Config.start wanted items shared : Config α ρ σ).places = List.range items.length := by
  have hands : ∀ n, (List.replicate n (.checking : Worker α)).filterMap Worker.inHand? = [] := by
    intro n
    rw [List.filterMap_replicate]
    rfl
  simp only [Config.places, Config.start, Config.inHand, Config.completed, hands, placed_fst,
    List.map_nil, List.append_nil]

/-- **A run keeps all places.** So where an item is at the end says what has become of it. -/
theorem places_perm {start c : Config α ρ σ} {log : List (Act × Bool)}
    (run : Run job capacity start log c) : c.places.Perm start.places := by
  induction run with
  | start => exact .refl _
  | next run move ih =>
    refine List.Perm.trans ?_ ih
    cases move with
    | step h => exact List.perm_iff_count.2 (count_places_of_step h)
    | interrupt => exact .refl _

/-- The workers that took the item at place `i`, in the order in which they did. -/
def takers (i : Nat) (log : List (Act × Bool)) : List Nat :=
  log.filterMap fun entry => entry.1.taker? i

theorem length_takers_append (i : Nat) (log : List (Act × Bool)) (act : Act) (flag : Bool) :
    (takers i (log ++ [(act, flag)])).length =
      (takers i log).length + (act.taker? i).toList.length := by
  rw [takers, List.filterMap_append, List.length_append, ← takers, List.filterMap_cons]
  cases act.taker? i <;> simp

/-- **What has been taken is in a hand or has a result.** The log tells how often an item was taken, and it
is in hands and results just as often. -/
theorem length_takers {wanted : Nat} {items : List α} {shared : σ} {log : List (Act × Bool)}
    {c : Config α ρ σ} (run : Run job capacity (.start wanted items shared) log c) (i : Nat) :
    (takers i log).length = c.inHand.count i + c.completed.count i := by
  generalize hstart : Config.start wanted items shared = start at run
  induction run with
  | start =>
    rw [← hstart, takers]
    simp [Config.start, Config.inHand, Config.completed, List.filterMap_replicate, Worker.inHand?]
  | next run move ih =>
    rw [length_takers_append, ih]
    cases move with
    | step h => exact (count_started_of_step h i).symm
    | interrupt => simp [Config.inHand, Config.completed, Act.taker?]

/-! ## 3. Runs in which nobody sees the flag -/

/-- A pool that nobody has asked to stop: a worker has only stopped if the queue is empty and
closed, and the queue is only closed if nothing is left to hand out. -/
structure Unhurried (c : Config α ρ σ) : Prop where
  exited : ∀ w ∈ c.workers, w.hasExited = true → c.dispatcher = .done ∧ c.queue = []
  closed : c.dispatcher = .done → c.pending = []
  staffed : c.workers ≠ []

/-- Before the first step no worker has stopped and nothing is closed. -/
theorem unhurried_start (wanted : Nat) (items : List α) (shared : σ) :
    Unhurried (Config.start wanted items shared : Config α ρ σ) := by
  refine ⟨?_, ?_, ?_⟩
  · intro w hw hexited
    simp only [Config.start, List.mem_replicate] at hw
    rw [hw.2] at hexited
    exact absurd hexited (by simp [Worker.hasExited])
  · intro hdone
    exact absurd hdone (by simp [Config.start])
  · have : 0 < workerCount wanted items := by
      rw [workerCount]
      omega
    simp only [Config.start, ne_eq, List.replicate_eq_nil_iff]
    omega

/-- Replacing one worker by another that has not stopped. -/
theorem Unhurried.replace {c : Config α ρ σ} (h : Unhurried c) {front back : List (Worker α)}
    {old : Worker α} (new : Worker α) (hw : c.workers = front ++ old :: back)
    (hnew : new.hasExited = false) :
    (∀ w ∈ front ++ new :: back, w.hasExited = true → c.dispatcher = .done ∧ c.queue = []) ∧
      front ++ new :: back ≠ [] := by
  refine ⟨?_, by simp⟩
  intro w hmem hexited
  refine h.exited w ?_ hexited
  rw [hw]
  simp only [List.mem_append, List.mem_cons] at hmem ⊢
  rcases hmem with hmem | rfl | hmem
  · exact .inl hmem
  · exact absurd hexited (by simp [hnew])
  · exact .inr (.inr hmem)

/-- While the flag is down a step keeps the pool unhurried: a worker stops only at an empty queue that is
closed, and the queue is closed only when nothing is left to hand out. -/
theorem unhurried_of_step {act : Act} {c d : Config α ρ σ} (h : Step job capacity act c d)
    (hc : Unhurried c) (hflag : job.stopped c.shared = false) : Unhurried d := by
  cases h with
  | finish hd hp =>
    exact ⟨fun w hw he => ⟨rfl, (hc.exited w hw he).2⟩, fun _ => hp, hc.staffed⟩
  | refrain _ _ hs | leave _ hs => exact absurd hs (by simp [hflag])
  | proceed hd =>
    refine ⟨fun w hw he => ?_, fun h => absurd h (by simp), hc.staffed⟩
    exact absurd (hc.exited w hw he).1 (by simp [hd])
  | send hd =>
    refine ⟨fun w hw he => ?_, fun h => absurd h (by simp), hc.staffed⟩
    exact absurd (hc.exited w hw he).1 (by simp [hd])
  | giveUp hd hw =>
    -- All workers have stopped, so the queue would be closed already.
    obtain ⟨w, hmem⟩ := List.exists_mem_of_ne_nil _ hc.staffed
    exact absurd (hc.exited w hmem (hw w hmem)).1 (by simp [hd])
  | stay hw =>
    obtain ⟨exited, staffed⟩ := hc.replace .receiving hw rfl
    exact ⟨exited, hc.closed, staffed⟩
  | @receive _ front back x rest hw hq =>
    obtain ⟨exited, staffed⟩ := hc.replace (.working x.1 x.2) hw rfl
    refine ⟨fun w hmem he => ?_, hc.closed, staffed⟩
    exact absurd (exited w hmem he).2 (by simp [hq])
  | close hw hq hd =>
    exact ⟨fun _ _ _ => ⟨hd, hq⟩, hc.closed, by simp⟩
  | report hw | breakOff hw =>
    obtain ⟨exited, staffed⟩ := hc.replace .checking hw rfl
    exact ⟨exited, hc.closed, staffed⟩

/-- Nobody saw the flag: it was not set at the start nor behind any move of the log. -/
def NeverStopped (job : Job α ρ σ) (shared : σ) (log : List (Act × Bool)) : Prop :=
  job.stopped shared = false ∧ ∀ entry ∈ log, entry.2 = false

/-- So a pool is unhurried all the time in a run in which the flag is never seen up. -/
theorem unhurried_of_run {wanted : Nat} {items : List α} {shared : σ} {log : List (Act × Bool)}
    {c : Config α ρ σ} (run : Run job capacity (.start wanted items shared) log c)
    (never : NeverStopped job shared log) : Unhurried c ∧ job.stopped c.shared = false := by
  generalize hstart : Config.start wanted items shared = start at run
  induction run with
  | start =>
    subst hstart
    exact ⟨unhurried_start wanted items shared, never.1⟩
  | @next log act c d run move ih =>
    obtain ⟨hc, hflag⟩ := ih ⟨never.1, fun entry hmem => never.2 entry (List.mem_append_left _ hmem)⟩
    refine ⟨?_, never.2 _ (List.mem_append_right _ List.mem_cons_self)⟩
    cases move with
    | step h => exact unhurried_of_step h hc hflag
    | interrupt => exact ⟨hc.exited, hc.closed, hc.staffed⟩

/-! ## 4. Ended runs -/

theorem inHand_of_ended {c : Config α ρ σ} (ended : c.ended = true) : c.inHand = [] := by
  simp only [Config.ended, Bool.and_eq_true, List.all_eq_true] at ended
  rw [Config.inHand, List.filterMap_eq_nil_iff]
  exact fun w hw => Worker.inHand?_of_hasExited (ended.2 w hw)

theorem mem_skipped_iff (total : Nat) (results : List (Nat × ρ)) (i : Nat) :
    i ∈ skipped total results ↔ i < total ∧ i ∉ results.map Prod.fst := by
  have any_iff : (results.any fun r => r.1 = i) = true ↔ i ∈ results.map Prod.fst := by
    simp [List.any_eq_true, List.mem_map]
  rw [skipped, List.mem_filter, List.mem_range, Bool.not_eq_true', ← any_iff, Bool.not_eq_true]

theorem count_skipped (total : Nat) (results : List (Nat × ρ)) (i : Nat) :
    (skipped total results).count i =
      if i < total ∧ i ∉ results.map Prod.fst then 1 else 0 := by
  have nodup : (skipped total results).Nodup := List.nodup_range.filter _
  by_cases h : i ∈ skipped total results
  · rw [if_pos ((mem_skipped_iff total results i).1 h), nodup.count, if_pos h]
  · rw [if_neg (fun h' => h ((mem_skipped_iff total results i).2 h')), List.count_eq_zero.2 h]

/-- The places with a result are places of items, each at most once. -/
theorem count_completed_le {wanted : Nat} {items : List α} {shared : σ} {log : List (Act × Bool)}
    {c : Config α ρ σ} (run : Run job capacity (.start wanted items shared) log c) (i : Nat) :
    c.completed.count i + c.inHand.count i ≤ if i < items.length then 1 else 0 := by
  have perm := (places_perm run).count_eq i
  rw [places_start, Config.count_places, List.nodup_range.count] at perm
  simp only [List.mem_range] at perm
  omega

/-- **The pool loses and duplicates nothing.** When a run has come to its end, by whatever order of
moves and wherever it was interrupted: every place has exactly one result and is not skipped, or it
has none and is skipped exactly once; a place has a result exactly if exactly one worker took its
item, and took it once; and if nobody ever saw the flag, nothing is skipped. -/
theorem completed_or_skipped_once {wanted : Nat} {items : List α} {shared : σ}
    {log : List (Act × Bool)} {c : Config α ρ σ}
    (run : Run job capacity (.start wanted items shared) log c) (ended : c.ended = true) :
    (∀ i < items.length,
      (c.completed.count i = 1 ∧ (skipped items.length c.results).count i = 0) ∨
        (c.completed.count i = 0 ∧ (skipped items.length c.results).count i = 1)) ∧
    (∀ i ∈ c.completed ++ skipped items.length c.results, i < items.length) ∧
    (∀ i, i ∈ c.completed ↔ ∃ worker, takers i log = [worker]) ∧
    (NeverStopped job shared log → skipped items.length c.results = []) := by
  have bound : ∀ i, c.completed.count i ≤ if i < items.length then 1 else 0 := by
    intro i
    have := count_completed_le run i
    omega
  refine ⟨?_, ?_, ?_, ?_⟩
  · intro i hi
    have hle := bound i
    rw [if_pos hi] at hle
    rw [count_skipped]
    by_cases hmem : i ∈ c.completed
    · have hpos := List.count_pos_iff.2 hmem
      exact .inl ⟨by omega, if_neg fun h => h.2 hmem⟩
    · exact .inr ⟨List.count_eq_zero.2 hmem, if_pos ⟨hi, hmem⟩⟩
  · intro i hi
    rcases List.mem_append.1 hi with hi | hi
    · have hpos := List.count_pos_iff.2 hi
      have hle := bound i
      by_contra hlt
      rw [if_neg hlt] at hle
      omega
    · rw [skipped, List.mem_filter, List.mem_range] at hi
      exact hi.1
  · intro i
    have hlen := length_takers run i
    have hle := bound i
    rw [inHand_of_ended ended, List.count_nil, Nat.zero_add] at hlen
    rw [← List.count_pos_iff, ← List.length_eq_one_iff]
    split at hle <;> omega
  · intro never
    obtain ⟨quiet, -⟩ := unhurried_of_run run never
    have hended := ended
    simp only [Config.ended, Bool.and_eq_true, List.all_eq_true, decide_eq_true_eq] at hended
    obtain ⟨w, hmem⟩ := List.exists_mem_of_ne_nil _ quiet.staffed
    have hqueue := (quiet.exited w hmem (hended.2 w hmem)).2
    have hpending := quiet.closed hended.1
    -- Nothing is left outside of the results, so they hold all places.
    have perm := places_perm run
    rw [places_start, Config.places, hpending, hqueue, inHand_of_ended ended] at perm
    rw [skipped, List.filter_eq_nil_iff]
    intro i hi
    have hmem : i ∈ c.completed := perm.mem_iff.2 (by simpa using hi)
    simpa [Config.completed] using hmem

/-- Work that gives every item back and breaks off on zero; the shared state is nothing but the
flag. -/
def echo : Job Nat Nat Bool where
  work := fun _ item flag => (if item = 0 then .error "zero" else .ok item, flag)
  onAbort := fun _ message => message.length
  stopped := id
  stop := fun _ => true

/-- One worker, three items, and an interruption while the worker has the first one in hand: the
first item breaks off and is reported, the other two are skipped. -/
theorem completed_or_skipped_once_interrupted :
    ∃ log c, Run echo 1 (.start 1 [0, 8, 9] false) log c ∧ c.ended = true ∧
      c.results = [(0, 4)] ∧ skipped 3 c.results = [1, 2] ∧ takers 0 log = [0] ∧
      (∀ i < 3, (c.completed.count i = 1 ∧ (skipped 3 c.results).count i = 0) ∨
        (c.completed.count i = 0 ∧ (skipped 3 c.results).count i = 1)) := by
  have alone (w : Worker Nat) : [w] = [] ++ w :: [] := rfl
  have ahead : placed [0, 8, 9] = (0, 0) :: [(1, 8), (2, 9)] := rfl
  have h0 : Run echo 1 (.start 1 [0, 8, 9] false) [] (.start 1 [0, 8, 9] false) := .start
  have h1 := h0.next (.step (.proceed rfl (by decide) rfl))
  have h2 := h1.next (.step (.send rfl ahead (by decide) ⟨.checking, List.mem_cons_self, rfl⟩))
  have h3 := h2.next (.step (.stay (alone .checking) rfl))
  have h4 := h3.next (.step (.receive (alone .receiving) rfl))
  have h5 := h4.next (.interrupt _)
  have h6 := h5.next (.step (.breakOff (alone (.working 0 0)) rfl))
  have h7 := h6.next (.step (.leave (alone .checking) rfl))
  have h8 := h7.next (.step (.refrain rfl (by decide) rfl))
  exact ⟨_, _, h8, rfl, rfl, by decide, by decide, (completed_or_skipped_once h8 rfl).1⟩

end BlockConfig.Pool
