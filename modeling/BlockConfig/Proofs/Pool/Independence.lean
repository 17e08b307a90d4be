import BlockConfig.Proofs.Pool.Progress

/-!
Items that have nothing to do with each other.

If the work on an item leaves the shared state as it is, then every item is worked on in the same
state, whenever its turn comes. What a worker has in hand is then always one of the items with its
place, and what it reports is what the work on this item gives in that state (`Faithful`). Since every
place is reported once, the results of a run that came to its end are known up to their order
(`results_perm`), whoever worked on what and when.

Such runs do come to their end: as long as nobody sets the flag, a run is nothing but steps, somebody
can always move, and the number of moves is bounded (`runs_to_end`).
-/

set_option autoImplicit false

namespace BlockConfig.Pool

variable {α ρ σ : Type} {job : Job α ρ σ} {capacity wanted : Nat} {items : List α} {shared : σ}
  {log : List (Act × Bool)} {c : Config α ρ σ}

/-! ## 1. Items and results at their places -/

theorem mem_placed_iff {index : Nat} {item : α} :
    (index, item) ∈ placed items ↔ items[index]? = some item := by
  simp [placed, List.mem_zipIdx_iff_getElem?]

/-- The result of the item at a place, if all work is done in one state. -/
def resultAt? (job : Job α ρ σ) (items : List α) (shared : σ) (index : Nat) : Option (Nat × ρ) :=
  items[index]?.map fun item => (index, (job.perform index item shared).1)

/-- The work on each of the items leaves the shared state as it is. -/
def LeavesAlone (job : Job α ρ σ) (items : List α) (shared : σ) : Prop :=
  ∀ index item, items[index]? = some item → (job.work index item shared).2 = shared

/-- A pool in the state in which it began, whose items and results are what they should be. -/
structure Faithful (job : Job α ρ σ) (items : List α) (shared : σ) (c : Config α ρ σ) : Prop where
  same : c.shared = shared
  waiting : ∀ x ∈ c.pending ++ c.queue, items[x.1]? = some x.2
  inHand : ∀ index item, .working index item ∈ c.workers → items[index]? = some item
  results : ∀ r ∈ c.results, resultAt? job items shared r.1 = some r

theorem faithful_start : Faithful job items shared (.start wanted items shared) := by
  refine ⟨rfl, ?_, ?_, by simp [Config.start]⟩
  · intro x hx
    simp only [Config.start, List.append_nil] at hx
    exact mem_placed_iff.1 hx
  · intro index item hmem
    simp [Config.start] at hmem

/-- A worker that does not take an item in hand by going on. -/
theorem Faithful.inHand_replace {front back : List (Worker α)} {v w : Worker α}
    (h : Faithful job items shared c) (hw : c.workers = front ++ w :: back)
    (hv : ∀ index item, .working index item = v → items[index]? = some item) (index : Nat)
    (item : α) (hmem : .working index item ∈ front ++ v :: back) : items[index]? = some item := by
  rcases List.mem_append.1 hmem with hmem | hmem
  · exact h.inHand index item (by simp [hw, hmem])
  · rcases List.mem_cons.1 hmem with heq | hmem
    · exact hv index item heq
    · exact h.inHand index item (by simp [hw, hmem])

/-- The end of the work on an item: its result is the one that it should have. -/
theorem Faithful.perform {index : Nat} {item : α} (h : Faithful job items shared c)
    (alone : LeavesAlone job items shared) (hmem : .working index item ∈ c.workers) :
    (job.work index item c.shared).2 = shared ∧
      resultAt? job items shared index = some (index, (job.perform index item c.shared).1) := by
  have hitem := h.inHand index item hmem
  rw [h.same, resultAt?, hitem]
  exact ⟨alone index item hitem, rfl⟩

/-- A step keeps a pool faithful. An item is worked on in the shared state in which the pool began, since no
item changes it, so its result is the one that it has alone. -/
theorem faithful_of_step {act : Act} {d : Config α ρ σ} (step : Step job capacity act c d)
    (alone : LeavesAlone job items shared) (h : Faithful job items shared c) :
    Faithful job items shared d := by
  cases step with
  | finish | refrain | proceed | giveUp => exact ⟨h.same, h.waiting, h.inHand, h.results⟩
  | send _ hp =>
    refine ⟨h.same, fun x hx => h.waiting x ?_, h.inHand, h.results⟩
    simp only [List.mem_append, hp, List.mem_cons] at hx ⊢
    tauto
  | leave hw | stay hw | close hw =>
    exact ⟨h.same, h.waiting, h.inHand_replace hw (by simp), h.results⟩
  | receive hw hq =>
    refine ⟨h.same, fun x hx => h.waiting x ?_, h.inHand_replace hw ?_, h.results⟩
    · simp only [List.mem_append, hq, List.mem_cons] at hx ⊢
      tauto
    · rintro index item ⟨⟩
      exact h.waiting _ (by simp [hq])
  | @report _ _ _ index item r s hw hr | @breakOff _ _ _ index item r s hw hr =>
    have hmem : .working index item ∈ c.workers := by rw [hw]; simp
    -- The work leaves the shared state as it was, so the result is the item's own.
    obtain ⟨hsame, hresult⟩ := h.perform alone hmem
    rw [Job.perform, hr] at hresult
    rw [hr] at hsame
    refine ⟨hsame, h.waiting, h.inHand_replace hw (by simp), fun r hr => ?_⟩
    rcases List.mem_append.1 hr with hr | hr
    · exact h.results _ hr
    · obtain rfl := List.mem_singleton.1 hr
      exact hresult

/-! ## 2. Runs without interruption -/

/-- Nobody sets the flag from outside unseen. -/
theorem ownRun_of_neverStopped (hstop : ∀ s, job.stopped (job.stop s) = true)
    (run : Run job capacity (.start wanted items shared) log c)
    (never : NeverStopped job shared log) :
    OwnRun job capacity (.start wanted items shared) c log := by
  induction run with
  | start => exact ⟨.start, rfl⟩
  | @next log act b c _ move ih =>
    have h := ih ⟨never.1, fun entry hmem => never.2 entry (List.mem_append_left _ hmem)⟩
    cases move with
    | step step => exact h.next step
    | interrupt =>
      have := never.2 _ (List.mem_append_right _ List.mem_cons_self)
      simp [hstop] at this

/-- **Without interruption the pool comes to its end:** somebody can move as long as not all have
come to theirs, and a run is no longer than what is left at its start. -/
theorem runs_to_end (h : OwnRun job capacity (.start wanted items shared) c log) :
    (c.ended = false → ∃ act d, Step job capacity act c d) ∧
      log.length ≤ (Config.start wanted items shared : Config α ρ σ).remaining := by
  refine ⟨fun hc => exists_step_of_not_ended hc (pending_of_sending h.run), ?_⟩
  have hcount := countP_isOwn_le h.run
  rw [List.countP_eq_length.2 (List.all_eq_true.1 h.own)] at hcount
  omega

/-- Along a whole run the pool stays faithful, from the start on. -/
theorem faithful_of_ownRun (alone : LeavesAlone job items shared)
    (h : OwnRun job capacity (.start wanted items shared) c log) :
    Faithful job items shared c := by
  obtain ⟨run, own⟩ := h
  induction run with
  | start => exact faithful_start
  | @next log act b c _ move ih =>
    simp only [List.all_append, Bool.and_eq_true] at own
    cases move with
    | step step => exact faithful_of_step step alone (ih own.1)
    | interrupt => simp [isOwn] at own

/-- If the work on the items leaves the shared state alone, nobody else sets the flag. -/
theorem neverStopped_of_ownRun (alone : LeavesAlone job items shared)
    (h : OwnRun job capacity (.start wanted items shared) c log)
    (hflag : job.stopped shared = false) : NeverStopped job shared log := by
  obtain ⟨run, own⟩ := h
  refine ⟨hflag, ?_⟩
  induction run with
  | start => simp
  | @next log act b c run move ih =>
    have same := (faithful_of_ownRun alone ⟨run.next move, own⟩).same
    rw [List.all_append, Bool.and_eq_true] at own
    intro entry hmem
    rcases List.mem_append.1 hmem with hmem | hmem
    · exact ih own.1 entry hmem
    · rw [List.mem_singleton.1 hmem, same, hflag]

/-! ## 3. Results at the end -/

/-- At the end of a run that nobody asked to stop, every place has its result. -/
theorem completed_perm (run : Run job capacity (.start wanted items shared) log c)
    (never : NeverStopped job shared log) (ended : c.ended = true) :
    c.completed.Perm (List.range items.length) := by
  obtain ⟨quiet, -⟩ := unhurried_of_run run never
  have hended := ended
  simp only [Config.ended, Bool.and_eq_true, List.all_eq_true, decide_eq_true_eq] at hended
  obtain ⟨w, hmem⟩ := List.exists_mem_of_ne_nil _ quiet.staffed
  have hqueue := (quiet.exited w hmem (hended.2 w hmem)).2
  have hpending := quiet.closed hended.1
  -- Nothing is left outside of the results, so they hold all places.
  have perm := places_perm run
  rwa [places_start, Config.places, hpending, hqueue, inHand_of_ended ended] at perm

/-- If every place has its result, nothing is skipped. -/
theorem skipped_eq_nil {total : Nat} {results : List (Nat × ρ)}
    (perm : (results.map Prod.fst).Perm (List.range total)) : skipped total results = [] := by
  refine List.eq_nil_iff_forall_not_mem.2 fun i hmem => ?_
  obtain ⟨hlt, hnone⟩ := (mem_skipped_iff total results i).1 hmem
  exact hnone (perm.mem_iff.2 (List.mem_range.2 hlt))

/-- The results of all items in order, if all work is done in one state. -/
def resultsIn (job : Job α ρ σ) (items : List α) (shared : σ) : List (Nat × ρ) :=
  (placed items).map fun (index, item) => (index, (job.perform index item shared).1)

theorem resultsIn_fst (job : Job α ρ σ) (items : List α) (shared : σ) :
    (resultsIn job items shared).map Prod.fst = List.range items.length := by
  rw [resultsIn, List.map_map]
  exact placed_fst items

theorem resultAt?_of_mem {r : Nat × ρ} (h : r ∈ resultsIn job items shared) :
    resultAt? job items shared r.1 = some r := by
  obtain ⟨⟨index, item⟩, hmem, rfl⟩ := List.mem_map.1 h
  rw [resultAt?, mem_placed_iff.1 hmem]
  rfl

/-- Results that are what they should be are known from their places. -/
theorem filterMap_resultAt? {results : List (Nat × ρ)}
    (h : ∀ r ∈ results, resultAt? job items shared r.1 = some r) :
    (results.map Prod.fst).filterMap (resultAt? job items shared) = results := by
  rw [List.filterMap_map]
  calc results.filterMap (resultAt? job items shared ∘ Prod.fst) = results.filterMap some :=
        List.filterMap_congr h
    _ = results := List.filterMap_some

/-- **The results of independent items do not depend on the schedule,** except for their order. All items
have been completed, and the result of each is determined by its place. -/
theorem results_perm (alone : LeavesAlone job items shared)
    (h : OwnRun job capacity (.start wanted items shared) c log)
    (hflag : job.stopped shared = false) (ended : c.ended = true) :
    c.results.Perm (resultsIn job items shared) := by
  -- Both sides have the same places, and a place determines its result.
  have perm := completed_perm h.run (neverStopped_of_ownRun alone h hflag) ended
  rw [← resultsIn_fst job items shared] at perm
  have results := perm.filterMap (resultAt? job items shared)
  rwa [Config.completed, filterMap_resultAt? (faithful_of_ownRun alone h).results,
    filterMap_resultAt? fun _ => resultAt?_of_mem] at results

end BlockConfig.Pool
