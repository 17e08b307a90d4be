import BlockConfig.Batch
import BlockConfig.Proofs.Eval.Seclusion
import BlockConfig.Proofs.Lexing.Cutting
import BlockConfig.Proofs.Pool.Independence
import Mathlib.Data.List.Pairwise
import Mathlib.Data.List.Perm.Basic

/-!
Batches do not depend on their schedule.

A run that leaves the world as it is can be the work on an item of a pool whose items have nothing to
do with each other, so the results of the pool are known up to their order (`results_perm_job`). What
is made of them does not depend on the order either: entries look for their place
(`getElem?_entries`), and tables with different keys can be united in any order
(`Table.union_right_comm`). Working in order, as `Batch.run` does, is one of the schedules
(`run_perm`).

Secluded documents and expressions are such items. Documents whose variables have different names
give the table that evaluating them one after the other gives (`merge_in_any_order`), and expressions
give what they give on their own (`evaluate_in_any_order`).
-/

set_option autoImplicit false

namespace BlockConfig.Batch

variable {α β : Type}

/-! ## 1. Runs as the work of a pool -/

/-- What is reported for the item at a place when the run on it has ended. -/
def settle (index : Nat) : Except Stop β → Outcome β
  | .ok b => .ok b
  | .error (.error e) => .error e
  | .error (.abort message) => .error (.workerAbort ("#" ++ index.repr ++ ": " ++ message))

theorem perform_job (work : α → Run β) (index : Nat) (item : α) (w : World) :
    (job work).perform index item w = (settle index ((work item).run w).1, ((work item).run w).2) := by
  unfold Job.perform job
  dsimp only
  -- A value, an error, and breaking off: each is reported as `settle` says.
  rcases (work item).run w with ⟨(e | message) | b, w'⟩ <;> rfl

theorem stopped_stop_job (work : α → Run β) (w : World) :
    (job work).stopped ((job work).stop w) = true :=
  rfl

/-- Runs that leave the world as it is. -/
theorem leavesAlone_job {work : α → Run β} {items : List α} {w : World}
    (alone : ∀ item ∈ items, ((work item).run w).2 = w) :
    Pool.LeavesAlone (job work) items w := by
  intro index item hitem
  have h := alone item (List.mem_of_getElem? hitem)
  unfold job
  dsimp only
  generalize (work item).run w = ending at h
  exact h

/-- What comes of each item on its own, with its place. -/
def outcomes (work : α → Run β) (items : List α) (w : World) : List (Nat × Outcome β) :=
  (Pool.placed items).map fun (index, item) => (index, settle index ((work item).run w).1)

theorem resultsIn_job (work : α → Run β) (items : List α) (w : World) :
    Pool.resultsIn (job work) items w = outcomes work items w := by
  unfold Pool.resultsIn outcomes
  simp only [perform_job]

section

variable {work : α → Run β} {items : List α} {w : World} {wanted capacity : Nat}
  {log : List (Pool.Act × Bool)} {c : Pool.Config α (Outcome β) World}

/-- Results of a batch on items that leave the world as it is. -/
theorem results_perm_job (alone : ∀ item ∈ items, ((work item).run w).2 = w)
    (h : Pool.OwnRun (job work) capacity (.start wanted items w) c log)
    (hflag : w.memory.cancelled = false) (ended : c.ended = true) :
    c.results.Perm (outcomes work items w) := by
  rw [← resultsIn_job]
  exact Pool.results_perm (leavesAlone_job alone) h hflag ended

/-- Working in order is one of the schedules. -/
theorem run_perm (alone : ∀ item ∈ items, ((work item).run w).2 = w)
    (hflag : w.memory.cancelled = false) :
    ((Batch.run work items w).1.Perm (outcomes work items w)) ∧ (Batch.run work items w).2 = w := by
  obtain ⟨log, c, own, ended, hresults, hshared⟩ := Pool.exists_run_inOrder (job work) 0 items w
  have same := (Pool.faithful_of_ownRun (leavesAlone_job alone) own).same
  exact ⟨hresults ▸ results_perm_job alone own hflag ended, hshared ▸ same⟩

/-- The outcomes are those of the items, each at its place, as each item gives them when it is the only
one. -/
theorem mem_outcomes_iff (r : Nat × Outcome β) :
    r ∈ outcomes work items w ↔
      ∃ item, items[r.1]? = some item ∧ r.2 = settle r.1 ((work item).run w).1 := by
  unfold outcomes
  constructor
  · intro hmem
    obtain ⟨⟨index, item⟩, hplaced, rfl⟩ := List.mem_map.1 hmem
    exact ⟨item, Pool.mem_placed_iff.1 hplaced, rfl⟩
  · rintro ⟨item, hitem, hr⟩
    exact List.mem_map.2 ⟨(r.1, item), Pool.mem_placed_iff.2 hitem, Prod.ext rfl hr.symm⟩

/-- Looking for the result at a place finds what comes of its item, in whatever order the results
came. -/
theorem find?_of_perm {results : List (Nat × Outcome β)}
    (perm : results.Perm (outcomes work items w)) {i : Nat} {item : α} (h : items[i]? = some item) :
    (results.find? fun r => r.1 = i) = some (i, settle i ((work item).run w).1) := by
  have mem_iff : ∀ r, r ∈ results ↔
      ∃ item, items[r.1]? = some item ∧ r.2 = settle r.1 ((work item).run w).1 :=
    fun r => perm.mem_iff.trans (mem_outcomes_iff r)
  cases found : results.find? fun r => r.1 = i with
  | none =>
    have none := List.find?_eq_none.1 found (i, settle i ((work item).run w).1)
      ((mem_iff _).2 ⟨item, h, rfl⟩)
    exact absurd (decide_eq_true rfl) none
  | some r =>
    have there := List.find?_some found
    obtain rfl : r.1 = i := of_decide_eq_true there
    obtain ⟨item', h', hr⟩ := (mem_iff r).1 (List.mem_of_find?_eq_some found)
    obtain rfl : item = item' := Option.some.inj (h.symm.trans h')
    rw [← hr]

end

/-! ## 2. Expressions -/

section

variable {e : Engine} {vars : Table Value} {texts : List String} {w : World}

/-- The state in which an expression of a batch is evaluated: a scope of its own inside the shared
one. -/
def fresh (vars : Table Value) (w : World) : State :=
  ⟨(Scope.root vars).child, w⟩

theorem expressionRun_run (e : Engine) (vars : Table Value) (text : String) (w : World) :
    (expressionRun e vars text).run w =
      ((e.evalExpression text (fresh vars w)).1, (e.evalExpression text (fresh vars w)).2.world) :=
  rfl

/-- Secluded expressions leave the world as it is. -/
theorem expressionRun_alone (vars : Table Value) (secluded : ∀ text ∈ texts, e.SecludedExpression text) :
    ∀ text ∈ texts, ((expressionRun e vars text).run w).2 = w := by
  intro text hmem
  rw [expressionRun_run]
  exact (Engine.evalExpression_secluded (secluded text hmem) (fresh vars w)).1

/-- **Entries depend on the results only, not on their order:** the one at a place is that of the
expression at the place, on its own. -/
theorem getElem?_entries {results : List (Nat × Outcome Value)}
    (perm : results.Perm (outcomes (expressionRun e vars) texts w)) (i : Nat) :
    (entries texts results)[i]? = texts[i]?.map fun text =>
      ⟨i, text, settle i (e.evalExpression text (fresh vars w)).1⟩ := by
  rw [entries, List.getElem?_map, List.getElem?_zipIdx, Nat.zero_add]
  cases htext : texts[i]? with
  | none => rfl
  | some text =>
    rw [Option.map_some, Option.map_some, Option.map_some]
    dsimp only
    rw [find?_of_perm perm htext, expressionRun_run]
    rfl

/-- Evaluating secluded expressions in order is evaluating each on its own. -/
theorem evaluate_eq (secluded : ∀ text ∈ texts, e.SecludedExpression text)
    (hflag : w.memory.cancelled = false) :
    evaluate e vars texts w =
      (texts.mapIdx fun i text => settle i (e.evalExpression text (fresh vars w)).1, w) := by
  obtain ⟨perm, hworld⟩ := run_perm (expressionRun_alone vars secluded) hflag
  unfold evaluate
  refine Prod.ext (List.ext_getElem? fun i => ?_) hworld
  rw [List.getElem?_map, getElem?_entries perm, List.getElem?_mapIdx]
  cases texts[i]? <;> rfl

/-- Only breaking off is reported as such. -/
theorem settle_workerAbort_iff (e : Engine) (text : String) (s : State) (i : Nat) :
    (∃ item, settle i (e.evalExpression text s).1 = .error (.workerAbort item)) ↔
      ∃ message, (e.evalExpression text s).1 = .error (.abort message) := by
  constructor
  · rintro ⟨item, h⟩
    cases hr : (e.evalExpression text s).1 with
    | ok v =>
      rw [hr] at h
      cases h
    | error stop =>
      cases stop with
      | abort message => exact ⟨message, rfl⟩
      | error fault =>
        rw [hr] at h
        cases h
        rcases Engine.error_of_evalExpression hr with ⟨_, h⟩ | ⟨_, h⟩ <;> cases h
  · rintro ⟨message, h⟩
    rw [h]
    exact ⟨_, rfl⟩

/-- **Batch results do not depend on the schedule.** Expressions without inclusions and commands,
strings included, that call pure functions only are evaluated by a pool of any number of workers with
a queue of any length, and nobody asks it to stop. Then somebody can move as long as not all have come
to their end, for at most so many moves as are left at the start. At the end there is one entry for
each expression: entry `i` has the index `i`, expression `i`, and what comes of this expression on
its own in a fresh scope inside the shared one; and a broken off worker is reported exactly if a
function breaks off that the expression calls. -/
theorem evaluate_in_any_order {wanted capacity : Nat} {log : List (Pool.Act × Bool)}
    {c : Pool.Config String (Outcome Value) World}
    (secluded : ∀ text ∈ texts, e.SecludedExpression text)
    (run : Pool.Run (job (expressionRun e vars)) capacity (.start wanted texts w) log c)
    (never : Pool.NeverStopped (job (expressionRun e vars)) w log) :
    (c.ended = false → ∃ act d, Pool.Step (job (expressionRun e vars)) capacity act c d) ∧
    log.length ≤
      (Pool.Config.start wanted texts w : Pool.Config String (Outcome Value) World).remaining ∧
    (c.ended = true →
      (entries texts c.results).length = texts.length ∧
      ∀ i entry, (entries texts c.results)[i]? = some entry →
        entry.index = i ∧ texts[i]? = some entry.expression ∧
        entry.result = settle i (e.evalExpression entry.expression (fresh vars w)).1 ∧
        ((∃ item, entry.result = .error (.workerAbort item)) ↔
          e.CallBreaksOff entry.expression (fresh vars w))) := by
  have own := Pool.ownRun_of_neverStopped (stopped_stop_job _) run never
  obtain ⟨moves, bound⟩ := Pool.runs_to_end own
  refine ⟨moves, bound, fun ended => ?_⟩
  -- What remains is about results in some order, not about runs.
  have perm := results_perm_job (expressionRun_alone vars secluded) own never.1 ended
  refine ⟨by simp [entries], fun i entry hentry => ?_⟩
  rw [getElem?_entries perm] at hentry
  obtain ⟨text, htext, rfl⟩ := Option.map_eq_some_iff.1 hentry
  refine ⟨rfl, htext, rfl, ?_⟩
  have hmem := List.mem_of_getElem? htext
  exact (settle_workerAbort_iff e text (fresh vars w) i).trans
    (Engine.evalExpression_secluded (secluded text hmem) (fresh vars w)).2

end

/-- An engine with a function that breaks off. -/
def brittle : Engine :=
  ⟨.default, [("boom", fun _ m => (.abort "out of order", m))], fun _ _ => .error "no commands"⟩

/-- A world with nothing in it. -/
def nowhere : World :=
  ⟨⟨.empty, "/", [], []⟩, .fresh, [], []⟩

/-- Two workers with an expression each, one of which breaks off. -/
theorem evaluate_in_any_order_brittle :
    (∀ text ∈ ["1", "boom()"], brittle.SecludedExpression text) ∧
    ∃ log c, Pool.Run (job (expressionRun brittle [])) 0 (.start 2 ["1", "boom()"] nowhere) log c ∧
      Pool.NeverStopped (job (expressionRun brittle [])) nowhere log ∧ c.ended = true ∧
      (entries ["1", "boom()"] c.results).map Entry.result =
        [.ok (.int 1), .error (.workerAbort "#1: out of order")] := by
  have number : Node.parseExpression "1" "<expr>" = .ok (.literal (.int 1)) := by
    have tokens : Token.list "1".toList =
        .ok [⟨.number, "1", .start, none, none⟩, .endOfInput ⟨1, 2⟩] :=
      Token.listFrom_step rfl rfl rfl (Token.listFrom_nil _)
    exact Rule.readText_ok_iff.2 ⟨_, _, tokens, rfl⟩
  have call : Node.parseExpression "boom()" "<expr>" = .ok (.call "boom" [] .start) := by
    have tokens : Token.list "boom()".toList =
        .ok [⟨.ident, "boom", .start, none, none⟩, ⟨.lparen, "(", ⟨1, 5⟩, none, none⟩,
          ⟨.rparen, ")", ⟨1, 6⟩, none, none⟩, .endOfInput ⟨1, 7⟩] := by
      refine Token.listFrom_step rfl rfl rfl ?_
      refine Token.listFrom_step rfl rfl rfl ?_
      refine Token.listFrom_step rfl rfl rfl ?_
      exact Token.listFrom_nil _
    exact Rule.readText_ok_iff.2 ⟨_, _, tokens, rfl⟩
  -- The number calls nothing, and what the other calls is pure: it breaks off whatever it is given.
  have secluded : ∀ text ∈ ["1", "boom()"], brittle.SecludedExpression text := by
    refine List.forall_mem_cons.2 ⟨fun n hn => ?_, List.forall_mem_singleton.2 fun n hn => ?_⟩
    · obtain rfl := Except.ok.inj (number.symm.trans hn)
      exact Node.secluded_literal _ nofun
    · obtain rfl := Except.ok.inj (call.symm.trans hn)
      refine .intro nofun nofun ?_ (fun m hmem => absurd hmem List.not_mem_nil) ?_
      · rintro name args pos ⟨⟩ f hf
        obtain rfl := Option.some.inj hf
        exact ⟨fun _ => .abort "out of order", fun _ _ => rfl⟩
      · rintro m ⟨s, quote, tag, -, -, ⟨⟩, -⟩
  obtain ⟨log, c, run, ended, own⟩ := Pool.exists_run_to_end
    (.start : Pool.Run (job (expressionRun brittle [])) 0 (.start 2 ["1", "boom()"] nowhere) [] _)
  have never := Pool.neverStopped_of_ownRun (leavesAlone_job (expressionRun_alone [] secluded))
    ⟨run, own⟩ rfl
  obtain ⟨-, -, settled⟩ := evaluate_in_any_order secluded run never
  obtain ⟨length, each⟩ := settled ended
  refine ⟨secluded, _, c, run, never, ended, ?_⟩
  obtain ⟨first, second, hentries⟩ := List.length_eq_two.1 length
  rw [hentries] at each ⊢
  obtain ⟨-, hfirst, hone, -⟩ := each 0 first rfl
  obtain ⟨-, hsecond, htwo, -⟩ := each 1 second rfl
  rw [← Option.some.inj hfirst, Engine.evalExpression, number] at hone
  rw [← Option.some.inj hsecond, Engine.evalExpression, call] at htwo
  rw [List.map_cons, List.map_singleton, hone, htwo]
  rfl

/-! ## 3. Documents -/

/-- The variables of texts that are evaluated one after the other, in one table. -/
def mergeInTurn (e : Engine) (sources : List (String × String)) : Run (Table Value) :=
  sources.foldlM (fun merged source => do return Table.union merged (← e.evalText source.2)) []

/-- A document gives a table and leaves the world as it is, under its name and without one. -/
structure Gives (e : Engine) (w : World) (source : String × String) (table : Table Value) :
    Prop where
  unnamed : e.evalText source.2 w = (.ok table, w)
  named : sourceRun e source w = (.ok table, w)

/-- A secluded document that is evaluated successfully. -/
theorem gives_of_secluded {e : Engine} {w : World} {source : String × String}
    {table : Table Value} (secluded : e.SecludedDocument source.2)
    (success : ((e.evalText source.2).run w).1 = .ok table) : Gives e w source table := by
  obtain ⟨name, text⟩ := source
  cases parsed : Node.parse text "<input>" with
  | error fault =>
    unfold Engine.evalText at success
    rw [parsed] at success
    cases success
  | ok nodes =>
    -- The name is only used in errors, so that the document is the same under it.
    have named : Node.parse text name = .ok nodes :=
      Rule.readText_ok_iff.2 (Rule.readText_ok_iff.1 parsed)
    have here : ∀ n ∈ nodes, n.Secluded (e.inline w.host).engine.functions := secluded nodes parsed
    have hworld := Engine.evalDocument_secluded here w
    have htext : e.evalText text w = _ := Engine.evalText_apply parsed w
    have hresult : (Engine.evalDocument (e.inline w.host) nodes w).1 = .ok table := by
      rw [← htext]
      exact success
    have hdocument : Engine.evalDocument (e.inline w.host) nodes w = (.ok table, w) :=
      Prod.ext hresult hworld
    refine ⟨htext.trans hdocument, ?_⟩
    unfold sourceRun
    rw [named, Run.ofParse_bind, Run.get_bind, hdocument]

section

variable {e : Engine} {w : World} {sources : List (String × String)} {tables : List (Table Value)}

/-- Documents one after the other. -/
theorem mergeInTurn_eq (h : List.Forall₂ (Gives e w) sources tables) :
    mergeInTurn e sources w = (.ok (tables.foldl Table.union []), w) := by
  unfold mergeInTurn
  generalize ([] : Table Value) = merged
  induction h generalizing merged with
  | nil => rfl
  | @cons source table sources tables h _ ih =>
    rw [List.foldlM_cons, Run.bind_apply, Run.bind_apply, h.unnamed]
    exact ih (Table.union merged table)

/-- What comes of documents on their own. -/
theorem outcomes_documents (h : List.Forall₂ (Gives e w) sources tables) :
    (outcomes (sourceRun e) sources w).map Prod.snd = tables.map .ok := by
  unfold outcomes Pool.placed
  rw [List.map_map, List.map_map]
  -- The places do not matter, since nothing breaks off.
  generalize (0 : Nat) = start
  induction h generalizing start with
  | nil => rfl
  | @cons source table sources tables h _ ih =>
    rw [List.zipIdx_cons, List.map_cons, List.map_cons, ih (start + 1)]
    have hrun : (sourceRun e source).run w = (.ok table, w) := h.named
    simp only [Function.comp_apply, hrun, settle]

theorem sourceRun_alone (h : List.Forall₂ (Gives e w) sources tables) :
    ∀ source ∈ sources, ((sourceRun e source).run w).2 = w := by
  induction h with
  | nil => simp
  | cons h _ ih => exact List.forall_mem_cons.2 ⟨congrArg Prod.snd h.named, ih⟩

/-- Values without errors are gathered in the order in which they come. -/
theorem gather_of_perm {outcomes : List (Outcome β)} {values : List β}
    (perm : outcomes.Perm (values.map .ok)) :
    ∃ values', gather outcomes = .ok values' ∧ values'.Perm values := by
  have ok : ∀ o ∈ outcomes, ∃ b, o = .ok b := by
    intro o hmem
    obtain ⟨b, -, rfl⟩ := List.mem_map.1 (perm.mem_iff.1 hmem)
    exact ⟨b, rfl⟩
  have failures : errorsOf outcomes = [] := by
    have none : outcomes.countP isSkipped = 0 := by
      refine List.countP_eq_zero.2 fun o hmem => ?_
      obtain ⟨b, rfl⟩ := ok o hmem
      simp [isSkipped]
    rw [errorsOf, none, if_pos rfl]
    refine List.filterMap_eq_nil_iff.2 fun o hmem => ?_
    obtain ⟨b, rfl⟩ := ok o hmem
    rfl
  refine ⟨valuesOf outcomes, by rw [gather, failures], ?_⟩
  have kept : valuesOf (values.map (.ok : β → Outcome β)) = values := by
    rw [valuesOf, List.filterMap_map]
    exact List.filterMap_some
  exact kept ▸ perm.filterMap _

/-- Tables with different keys. -/
def DisjointKeys (t u : Table Value) : Prop :=
  ∀ k ∈ Table.keys t, k ∉ Table.keys u

/-- **Tables with different keys can be merged in any order.** It rests on two of them changing places,
which is all that a permutation does. -/
theorem foldl_union_perm {tables tables' : List (Table Value)} (perm : tables'.Perm tables)
    (disjoint : tables.Pairwise DisjointKeys) :
    tables'.foldl Table.union [] = tables.foldl Table.union [] := by
  -- It is enough that two tables can change places, wherever they stand in the list.
  have symm : Std.Symm DisjointKeys := ⟨fun t u h k hu ht => h k ht hu⟩
  refine (perm.symm.foldl_eq' (fun t ht u hu merged => ?_) []).symm
  by_cases same : t = u
  · rw [same]
  · exact Table.union_right_comm (disjoint.forall ht hu same)

/-- **Merging does not depend on the order in which documents are done.** The places in the results say that
every document has been done; after that only the outcomes count, and their tables have different keys. -/
theorem merge_of_perm {results : List (Nat × Outcome (Table Value))}
    (gives : List.Forall₂ (Gives e w) sources tables) (disjoint : tables.Pairwise DisjointKeys)
    (perm : results.Perm (outcomes (sourceRun e) sources w)) :
    merge (collect (sources.map Prod.fst) results) = .ok (tables.foldl Table.union []) := by
  have complete : Pool.skipped sources.length results = [] := by
    have places := perm.map Prod.fst
    rw [← resultsIn_job, Pool.resultsIn_fst] at places
    exact Pool.skipped_eq_nil places
  have hdocuments : (collect (sources.map Prod.fst) results).map Document.result =
      results.map Prod.snd := by
    rw [collect, List.length_map, complete, List.map_nil, List.append_nil, List.map_map]
    rfl
  -- The places have done their work: gathering looks at the outcomes only.
  have hresults := perm.map Prod.snd
  rw [outcomes_documents gives] at hresults
  obtain ⟨tables', hgather, htables⟩ := gather_of_perm hresults
  rw [merge, hdocuments, hgather]
  exact congrArg Except.ok (foldl_union_perm htables disjoint)

/-- Secluded documents that are evaluated successfully. -/
theorem forall₂_gives (secluded : ∀ source ∈ sources, e.SecludedDocument source.2)
    (success : List.Forall₂ (fun source table => ((e.evalText source.2).run w).1 = .ok table)
      sources tables) : List.Forall₂ (Gives e w) sources tables := by
  induction success with
  | nil => exact .nil
  | cons h _ ih =>
    rw [List.forall_mem_cons] at secluded
    exact .cons (gives_of_secluded secluded.1 h) (ih secluded.2)

/-- Merging what comes of documents in order gives what the loop gives. -/
theorem merge_parseSources (secluded : ∀ source ∈ sources, e.SecludedDocument source.2)
    (success : List.Forall₂ (fun source table => ((e.evalText source.2).run w).1 = .ok table)
      sources tables)
    (disjoint : tables.Pairwise DisjointKeys) (hflag : w.memory.cancelled = false) :
    ∃ merged, (mergeInTurn e sources).run w = (.ok merged, w) ∧
      merge (parseSources e sources w).1 = .ok merged := by
  have gives := forall₂_gives secluded success
  obtain ⟨perm, -⟩ := run_perm (sourceRun_alone gives) hflag
  exact ⟨_, mergeInTurn_eq gives, merge_of_perm gives disjoint perm⟩

/-- **Merging in parallel equals the loop.** Documents without inclusions and commands, strings
included, that call pure functions only are all evaluated successfully, give tables with different
keys, and are given to a pool of any number of workers with a queue of any length which nobody asks
to stop. Then somebody can move as long as not all have come to their end, for at most so many moves
as are left at the start. At the end the documents are merged without an error, into the table that
evaluating one after the other gives, each joined to those before it. -/
theorem merge_in_any_order {wanted capacity : Nat} {log : List (Pool.Act × Bool)}
    {c : Pool.Config (String × String) (Outcome (Table Value)) World}
    (secluded : ∀ source ∈ sources, e.SecludedDocument source.2)
    (success : List.Forall₂ (fun source table => ((e.evalText source.2).run w).1 = .ok table)
      sources tables)
    (disjoint : tables.Pairwise DisjointKeys)
    (run : Pool.Run (job (sourceRun e)) capacity (.start wanted sources w) log c)
    (never : Pool.NeverStopped (job (sourceRun e)) w log) :
    (c.ended = false → ∃ act d, Pool.Step (job (sourceRun e)) capacity act c d) ∧
    log.length ≤ (Pool.Config.start wanted sources w :
      Pool.Config (String × String) (Outcome (Table Value)) World).remaining ∧
    (c.ended = true → ∃ merged, (mergeInTurn e sources).run w = (.ok merged, w) ∧
      merge (collect (sources.map Prod.fst) c.results) = .ok merged) := by
  have own := Pool.ownRun_of_neverStopped (stopped_stop_job _) run never
  obtain ⟨moves, bound⟩ := Pool.runs_to_end own
  refine ⟨moves, bound, fun ended => ?_⟩
  have gives := forall₂_gives secluded success
  have perm := results_perm_job (sourceRun_alone gives) own never.1 ended
  exact ⟨_, mergeInTurn_eq gives, merge_of_perm gives disjoint perm⟩

end

/-- Two documents with a variable each; three workers were asked for, and two are enough. -/
theorem merge_in_any_order_flags :
    ∃ log c, Pool.Run (job (sourceRun brittle)) 1
        (.start 3 [("first", "a"), ("second", "b")] nowhere) log c ∧
      Pool.NeverStopped (job (sourceRun brittle)) nowhere log ∧ c.ended = true ∧
      merge (collect ["first", "second"] c.results) =
        .ok [("a", .bool true), ("b", .bool true)] := by
  have flag : ∀ name file, Token.list name.toList =
      .ok [⟨.ident, name, .start, none, none⟩, .endOfInput ⟨1, 2⟩] →
        Node.parse name file = .ok [.assign ⟨name, .start⟩ (.literal (.bool true)) .flag] :=
    fun name file tokens => Rule.readText_ok_iff.2 ⟨_, _, tokens, rfl⟩
  have a := flag "a" "<input>" (Token.listFrom_step rfl rfl rfl (Token.listFrom_nil _))
  have b := flag "b" "<input>" (Token.listFrom_step rfl rfl rfl (Token.listFrom_nil _))
  have secluded : ∀ source ∈ [("first", "a"), ("second", "b")],
      brittle.SecludedDocument source.2 := by
    have statement : ∀ name, Node.Secluded brittle.functions
        (.assign ⟨name, .start⟩ (.literal (.bool true)) .flag) := by
      refine fun name => .intro nofun nofun nofun ?_ ?_
      · exact List.forall_mem_singleton.2 (Node.secluded_literal _ nofun)
      · rintro m ⟨s, quote, tag, -, -, ⟨⟩, -⟩
    refine List.forall_mem_cons.2 ⟨fun ns hns => ?_, List.forall_mem_singleton.2 fun ns hns => ?_⟩
    · obtain rfl := Except.ok.inj (a.symm.trans hns)
      exact List.forall_mem_singleton.2 (statement "a")
    · obtain rfl := Except.ok.inj (b.symm.trans hns)
      exact List.forall_mem_singleton.2 (statement "b")
  -- Each document succeeds by itself, with its one variable.
  have success : List.Forall₂
      (fun (source : String × String) table =>
        ((brittle.evalText source.2).run nowhere).1 = .ok table)
      [("first", "a"), ("second", "b")] [[("a", .bool true)], [("b", .bool true)]] := by
    refine .cons ?_ (.cons ?_ .nil)
    · show (brittle.evalText "a" nowhere).1 = _
      rw [Engine.evalText_apply a, Engine.evalDocument_apply]
      rfl
    · show (brittle.evalText "b" nowhere).1 = _
      rw [Engine.evalText_apply b, Engine.evalDocument_apply]
      rfl
  have disjoint : [[("a", Value.bool true)], [("b", .bool true)]].Pairwise DisjointKeys := by
    simp [DisjointKeys, Table.keys]
  have gives := forall₂_gives secluded success
  obtain ⟨log, c, run, ended, own⟩ := Pool.exists_run_to_end
    (.start : Pool.Run (job (sourceRun brittle)) 1
      (.start 3 [("first", "a"), ("second", "b")] nowhere) [] _)
  -- There are no interruptions in the run, and the work on the items sets no flag.
  have never := Pool.neverStopped_of_ownRun
    (leavesAlone_job (sourceRun_alone gives)) ⟨run, own⟩ rfl
  obtain ⟨-, -, settled⟩ := merge_in_any_order secluded success disjoint run never
  obtain ⟨merged, hturn, hmerge⟩ := settled ended
  refine ⟨_, c, run, never, ended, hmerge.trans ?_⟩
  obtain rfl := Except.ok.inj (congrArg Prod.fst (hturn.symm.trans (mergeInTurn_eq gives)))
  rfl

end BlockConfig.Batch
