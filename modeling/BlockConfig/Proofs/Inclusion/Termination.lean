import BlockConfig.Proofs.Eval.Property
import BlockConfig.Proofs.Eval.TextLength
import BlockConfig.Proofs.Inclusion.Outcome
import BlockConfig.Proofs.Inclusion.Place
import Mathlib.Data.List.Nodup
import Mathlib.Data.List.Perm.Subperm

/-!
Evaluation comes to an end.

Evaluation calls itself in two places that the shape of a tree does not bound: at an expression that is
found in a string, and at a document that is included. What it does there is an `Evaluator`, and one
round of evaluation makes an evaluator of another (`Evaluator.round`): it does what the language says
and leaves the two places to the other. Evaluation without bounds is an evaluator that is its own round.
That it comes to an end means that so many rounds are enough: after them the result is the same whatever
is done at the bottom. To say at the same time which documents are ever opened, a round runs only those
that may be (`Source.Confined`), and does anything at all with others.

Three things become less on the way down. Every document that is opened is one of the targets that there
are and is not open already, so fewer are left (`Source.left`). An expression inside a string has
shorter strings (`Node.longestText`). And between these, evaluation follows the tree. How long the
strings of documents are is bounded in advance, because there are only so many documents
(`World.longest`).
-/

set_option autoImplicit false

namespace BlockConfig

/-! ## 1. Targets -/

/-- What can be fetched: files and remote documents. -/
def Host.fetchable (h : Host) : List String :=
  Table.keys h.files.files ++ Table.keys h.documents

/-- The longest string of the document with a key; zero if there is none. -/
def Host.longestAt (h : Host) (key : String) : Nat :=
  match h.textAt (.ofKey key) with
  | .error _ => 0
  | .ok text =>
    match Node.parse text key with
    | .error _ => 0
    | .ok nodes => longestTextAll nodes

/-- The longest string of a document that can be fetched and read is that of its statements. -/
theorem Host.longestAt_eq {h : Host} {key text : String} {nodes : List Node}
    (fetched : h.textAt (.ofKey key) = .ok text) (read : Node.parse text key = .ok nodes) :
    h.longestAt key = longestTextAll nodes := by
  rw [longestAt, fetched]
  dsimp only
  rw [read]

namespace World

/-- What can be included: what can be fetched, and what is in the cache only. -/
def targets (w : World) : List String :=
  w.host.fetchable ++ (Table.keys w.cache).filter fun key => key ∉ w.host.fetchable

/-- If all that is in the cache can be fetched, then that is what can be included. -/
theorem targets_eq_fetchable {w : World} (h : ∀ key ∈ Table.keys w.cache, key ∈ w.host.fetchable) :
    w.targets = w.host.fetchable := by
  have none_left : (Table.keys w.cache).filter (fun key => key ∉ w.host.fetchable) = [] :=
    List.filter_eq_nil_iff.2 fun key hkey => by simpa using h key hkey
  rw [targets, none_left, List.append_nil]

/-- The longest string of all documents. -/
def longest (w : World) : Nat :=
  (w.targets.map w.host.longestAt ++ w.cache.map fun entry => longestTextAll entry.2).foldr max 0

/-- A number is at most the largest of the list. -/
theorem le_foldr_max {ns : List Nat} {n : Nat} (h : n ∈ ns) : n ≤ ns.foldr max 0 := by
  induction ns with
  | nil => cases h
  | cons m ns ih =>
    rcases List.mem_cons.1 h with rfl | h
    · exact Nat.le_max_left _ _
    · exact Nat.le_trans (ih h) (Nat.le_max_right _ _)

/-- There are at most as many targets as the reach of a world says, which is the number that the rounds are
counted from. -/
theorem length_targets_le (w : World) : w.targets.length ≤ w.reach := by
  have := List.length_filter_le (fun key => decide (key ∉ w.host.fetchable)) (Table.keys w.cache)
  simp only [targets, reach, Host.fetchable, List.length_append, Table.keys, List.length_map] at this ⊢
  omega

/-- A world that an evaluation may come to from another: the surroundings are the same, and nothing is
in the cache that could not be included before. -/
structure Fits (w w' : World) : Prop where
  host : w'.host = w.host
  cached {key : String} {nodes : List Node} (h : Table.find? w'.cache key = some nodes) :
    key ∈ w.targets ∧ longestTextAll nodes ≤ w.longest

/-- A world fits itself: all that is in its cache is one of its targets. -/
theorem fits_self (w : World) : w.Fits w := by
  refine ⟨rfl, fun {key nodes} h => ⟨?_, le_foldr_max (List.mem_append_right _ ?_)⟩⟩
  · by_cases fetchable : key ∈ w.host.fetchable
    · exact List.mem_append_left _ fetchable
    · refine List.mem_append_right _ (List.mem_filter.2 ⟨Table.mem_keys_of_find? h, ?_⟩)
      simpa using fetchable
  · exact List.mem_map.2 ⟨(key, nodes), Table.mem_of_find? h, rfl⟩

/-- Noting an event changes neither the surroundings nor the cache. -/
theorem Fits.noting {w w' : World} (h : w.Fits w') (e : Event) : w.Fits (w'.noting e) :=
  ⟨h.host, h.cached⟩

/-- A document that was found and has a text can be included. -/
theorem mem_targets_of_textAt {w : World} {src : Source} {target text : String} {place : Location}
    (found : src.find w.host target = .ok place) (fetched : w.host.textAt place = .ok text) :
    place.key ∈ w.targets := by
  refine List.mem_append_left _ ?_
  rcases Source.find_cases found with ⟨rfl, -⟩ | ⟨key, rfl, hmem, -⟩
  · refine List.mem_append_right _ ?_
    have answer : w.host.fetch target = .ok text := fetched
    unfold Host.fetch at answer
    split at answer
    next h => exact Table.mem_keys_of_find? h
    next => cases answer
  · exact List.mem_append_left _ hmem

/-- No document that can be fetched has a longer string than the world. -/
theorem longestTextAll_le_of_fetched {w : World} {key text : String} {nodes : List Node}
    (hkey : key ∈ w.targets) (fetched : w.host.textAt (.ofKey key) = .ok text)
    (read : Node.parse text key = .ok nodes) : longestTextAll nodes ≤ w.longest := by
  refine le_foldr_max (List.mem_append_left _ ?_)
  exact List.mem_map.2 ⟨key, hkey, Host.longestAt_eq fetched read⟩

/-- A document that was fetched and read may come into the cache. -/
theorem Fits.keeping {w w' : World} (h : w.Fits w') {key text : String} {nodes : List Node}
    (hkey : key ∈ w.targets) (fetched : w.host.textAt (.ofKey key) = .ok text)
    (read : Node.parse text key = .ok nodes) : w.Fits (w'.keeping key nodes) := by
  refine ⟨h.host, fun {key' nodes'} found => ?_⟩
  rw [World.keeping, Table.find?_insert] at found
  by_cases same : key' = key
  · rw [if_pos same] at found
    cases found
    cases same
    exact ⟨hkey, longestTextAll_le_of_fetched hkey fetched read⟩
  · rw [if_neg same] at found
    exact h.cached found

end World

namespace Source

/-- How many documents can still be opened. -/
def left (src : Source) (w : World) : Nat :=
  (w.targets.filter fun key => key ∉ src.opened).length

/-- Opening a document leaves one fewer to be opened. This is what decreases from one inclusion to the
next. -/
theorem left_nested_lt {src : Source} {w : World} {key : String} (hkey : key ∈ w.targets)
    (closed : key ∉ src.opened) (path : String) : (src.nested path key).left w < src.left w := by
  have fewer : (w.targets.filter fun k => k ∉ (src.nested path key).opened) =
      (w.targets.filter fun k => k ∉ src.opened).filter fun k => k ≠ key := by
    rw [List.filter_filter]
    refine List.filter_congr fun k _ => ?_
    simp [nested, and_comm]
  unfold left
  rw [fewer, List.length_filter_lt_length_iff_exists]
  exact ⟨key, List.mem_filter.2 ⟨hkey, by simpa using closed⟩, by simp⟩

/-- The documents that are open when evaluation has come from one document to another: to those that
were open there are added targets of the world, none of them a second time. -/
def Confined (src : Source) (w : World) (inner : Source) : Prop :=
  src.opened <+: inner.opened ∧ inner.opened.Nodup ∧
    (∀ key ∈ inner.opened, key ∈ src.opened ∨ key ∈ w.targets) ∧
    inner.opened.length ≤ src.opened.length + w.targets.length

instance (src : Source) (w : World) : DecidablePred (src.Confined w) :=
  fun _ => inferInstanceAs (Decidable (_ ∧ _ ∧ _ ∧ _))

/-- A document is confined to what is open there already. -/
theorem confined_self {src : Source} (nodup : src.opened.Nodup) (w : World) : src.Confined w src :=
  ⟨List.prefix_rfl, nodup, fun _ => .inl, Nat.le_add_right _ _⟩

/-- A target that was not open may be opened. The stack stays free of repetitions and grows by a target, so
there is room for it. -/
theorem Confined.nested {src inner : Source} {w : World} (h : src.Confined w inner) {key : String}
    (hkey : key ∈ w.targets) (closed : key ∉ inner.opened) (path : String) :
    src.Confined w (inner.nested path key) := by
  obtain ⟨begins, nodup, known, -⟩ := h
  have nodup' : (inner.opened ++ [key]).Nodup := by
    refine List.nodup_append.2 ⟨nodup, List.nodup_singleton key, fun k hk k' hk' => ?_⟩
    rw [List.mem_singleton.1 hk']
    exact fun same => closed (same ▸ hk)
  have known' : ∀ k ∈ inner.opened ++ [key], k ∈ src.opened ∨ k ∈ w.targets := by
    intro k hk
    rcases List.mem_append.1 hk with hk | hk
    · exact known k hk
    · exact .inr (List.mem_singleton.1 hk ▸ hkey)
  refine ⟨begins.trans (List.prefix_append _ _), nodup', known', ?_⟩
  -- Without repetition there are no more of them than there are to choose from.
  rw [← List.length_append]
  exact (nodup'.subperm fun k hk => List.mem_append.2 (known' k hk)).length_le

end Source

/-! ## 2. Evaluation in rounds -/

/-- What is done where evaluation leaves a tree: with an expression in a string, with the target of an
inclusion, and with the statements of a document that is opened. -/
structure Evaluator where
  splice : Source → Node → Eval Value
  inclusion : Source → String → Eval Value
  run : Source → List Node → Eval Unit

namespace Evaluator

/-- How an evaluator goes on from a document. -/
def hooks (go : Evaluator) (src : Source) : Hooks :=
  ⟨go.splice src, go.inclusion src⟩

variable (allowed : Source → Prop) [DecidablePred allowed] (stray : Evaluator)

/-- One round of evaluation. Where it leaves a tree `go` goes on; a document that is not allowed to be
opened is left to `stray`. -/
def round (go : Evaluator) : Evaluator where
  splice src m := do Eval.ofExcept ((← m.evalWith src (go.hooks src)).unwrapCall m)
  inclusion src target := Eval.includeWith go.run src target
  run src nodes :=
    if allowed src then evalStatements src (go.hooks src) nodes else stray.run src nodes

/-- So many rounds of evaluation, and then whatever `stray` does. -/
def rounds : Nat → Evaluator
  | 0 => stray
  | k + 1 => round allowed stray (rounds k)

end Evaluator

namespace Eval

variable {α β : Type} {w : World}

/-! ## 3. Evaluations that are the same from worlds that fit -/

/-- Two evaluations are the same in every world that fits, and leave such a world. -/
def Coincide (w : World) (x y : Eval α) : Prop :=
  ∀ s : State, w.Fits s.world → x s = y s ∧ w.Fits (x s).2.world

/-- A sequence coincides if its parts do, the second one from every world that the first may leave; those
fit as well. -/
theorem Coincide.bind {x y : Eval α} {f g : α → Eval β} (h : Coincide w x y)
    (hf : ∀ a, Coincide w (f a) (g a)) : Coincide w (x >>= f) (y >>= g) := by
  intro s fits
  obtain ⟨same, left⟩ := h s fits
  rw [bind_apply, bind_apply, ← same]
  generalize x s = ending at left
  rcases ending with ⟨fault | a, s'⟩
  · exact ⟨rfl, left⟩
  · exact hf a s' left

/-- Running in another scope changes nothing of the worlds. -/
theorem Coincide.within {x y : Eval Unit} (h : Coincide w x y) (other : Scope → Scope) :
    Coincide w (within other x) (within other y) := by
  intro s fits
  obtain ⟨same, left⟩ := h { s with scope := other s.scope } fits
  rw [world_within]
  refine ⟨?_, left⟩
  unfold Eval.within
  rw [same]

/-- Neither does catching a failure. -/
theorem Coincide.attempt {x y : Eval α} (h : Coincide w x y) :
    Coincide w (attempt x) (attempt y) := by
  intro s fits
  obtain ⟨same, left⟩ := h s fits
  rw [state_attempt]
  refine ⟨?_, left⟩
  unfold Eval.attempt
  rw [same]

/-- Nor locating it. -/
theorem Coincide.locating (file : String) (pos : Option Position) {x y : Eval α}
    (h : Coincide w x y) : Coincide w (locating file pos x) (locating file pos y) := by
  intro s fits
  obtain ⟨same, left⟩ := h s fits
  rw [state_locating]
  refine ⟨?_, left⟩
  unfold Eval.locating
  rw [same]

/-- Nor does evaluating in a scope that is thrown away. -/
theorem Coincide.aside {x y : Eval α} (h : Coincide w x y) :
    Coincide w (fun s => match x { s with scope := s.scope.child } with
        | (r, s') => (r, { s' with scope := s.scope }))
      (fun s => match y { s with scope := s.scope.child } with
        | (r, s') => (r, { s' with scope := s.scope })) := by
  intro s fits
  obtain ⟨same, left⟩ := h { s with scope := s.scope.child } fits
  dsimp only
  rw [← same]
  exact ⟨rfl, left⟩

/-- **Coinciding is kept by everything evaluation is put together from.** That the results are the same and
that the world still fits is passed on from one step to the next. -/
theorem congruence_coincide (w : World) : Congruence (Coincide w) where
  pure _ _ fits := ⟨rfl, fits⟩
  bind := Coincide.bind
  fail _ _ fits := ⟨rfl, fits⟩
  own h s fits := h s.scope s.scope rfl s fits
  host h s fits := h s.world.host s fits
  set _ _ _ fits := ⟨rfl, fits⟩
  attempt := Coincide.attempt
  locating file pos _ _ h := h.locating file pos
  inChild h := h.within Scope.child
  aside := Coincide.aside

/-- A call is the same evaluation on both sides, and leaves the cache alone. -/
theorem coincide_call (f : Callable) (values : List Value) :
    Coincide w (call f values) (call f values) := by
  intro s fits
  rw [state_call]
  exact ⟨rfl, fits.host, fits.cached⟩

/-- A command is the same on both sides, too; the event that it notes is none of inclusion. -/
theorem coincide_runCommand (src : Source) (c : Command) :
    Coincide w (runCommand src c) (runCommand src c) := by
  intro s fits
  refine ⟨rfl, ?_⟩
  rw [runCommand_apply]
  exact fits.noting _

/-- **An inclusion does the same** if the documents that may be opened are run in the same way. Which
document it is and where its text comes from depends on the host alone, and that is the same. -/
theorem coincide_includeWith {run run' : Source → List Node → Eval Unit} {src : Source}
    (h : ∀ key ∈ w.targets, key ∉ src.opened → ∀ nodes, longestTextAll nodes ≤ w.longest →
      Coincide w (run (src.nested key key) nodes) (run' (src.nested key key) nodes))
    (target : String) : Coincide w (includeWith run src target) (includeWith run' src target) := by
  intro s fits
  -- A document is run in two places, from the cache and anew, and both times it is one that may be
  -- opened and has no longer texts than there are.
  have cachedRun {place : Location} {nodes : List Node} (closed : place.key ∉ src.opened)
      (cached : Table.find? s.world.cache place.key = some nodes) :
      inChild (run (src.nested place.key place.key) nodes) s =
          inChild (run' (src.nested place.key place.key) nodes) s ∧
        w.Fits (inChild (run (src.nested place.key place.key) nodes) s).2.world :=
    (h _ (fits.cached cached).1 closed nodes (fits.cached cached).2).within Scope.child s fits
  have newRun {place : Location} {text : String} {nodes : List Node}
      (found : src.find s.world.host target = .ok place) (closed : place.key ∉ src.opened)
      (fetched : s.world.host.textAt place = .ok text)
      (read : Node.parse text place.key = .ok nodes) :
      place.key ∈ w.targets ∧ w.host.textAt (.ofKey place.key) = .ok text ∧
        inFresh (run (src.nested place.key place.key) nodes) (s.noting place.event) =
          inFresh (run' (src.nested place.key place.key) nodes) (s.noting place.event) ∧
        w.Fits (inFresh (run (src.nested place.key place.key) nodes)
          (s.noting place.event)).2.world := by
    rw [fits.host] at found fetched
    have hkey := World.mem_targets_of_textAt found fetched
    rw [← Source.ofKey_of_find found] at fetched
    have short := World.longestTextAll_le_of_fetched hkey fetched read
    exact ⟨hkey, fetched, (h _ hkey closed nodes short).within _ (s.noting place.event)
      (fits.noting _)⟩
  obtain ⟨r, s', h'⟩ := exists_included run' src target s
  -- So each way in which the one inclusion ends is a way in which the other does.
  have same : Included run src target s r s' ∧ w.Fits s'.world := by
    cases h' with
    | lost lost => exact ⟨.lost lost, fits⟩
    | circular found opened => exact ⟨.circular found opened, fits⟩
    | unfetched found closed missing fetched =>
      exact ⟨.unfetched found closed missing fetched, fits.noting _⟩
    | unread found closed missing fetched read =>
      exact ⟨.unread found closed missing fetched read, fits.noting _⟩
    | again found closed cached ran =>
      obtain ⟨same, left⟩ := cachedRun closed cached
      rw [ran] at same
      rw [same] at left
      exact ⟨.again found closed cached same, left.noting _⟩
    | againFailed found closed cached ran =>
      obtain ⟨same, left⟩ := cachedRun closed cached
      rw [ran] at same
      rw [same] at left
      exact ⟨.againFailed found closed cached same, left⟩
    | anew found closed missing fetched read ran =>
      obtain ⟨hkey, hfetched, same, left⟩ := newRun found closed fetched read
      rw [ran] at same
      rw [same] at left
      exact ⟨.anew found closed missing fetched read same, (left.keeping hkey hfetched read).noting _⟩
    | anewFailed found closed missing fetched read ran =>
      obtain ⟨hkey, hfetched, same, left⟩ := newRun found closed fetched read
      rw [ran] at same
      rw [same] at left
      exact ⟨.anewFailed found closed missing fetched read same, left⟩
  rw [includeWith_eq same.1, includeWith_eq h']
  exact ⟨rfl, same.2⟩

/-- Where evaluation leaves a tree, it goes to shorter strings, or to an inclusion. -/
theorem coincidesHere_of_shorter {src : Source} {hooks hooks' : Hooks} {length : Nat}
    (spliced : ∀ m : Node, m.longestText < length → Coincide w (hooks.splice m) (hooks'.splice m))
    (included : ∀ target, Coincide w (hooks.inclusion target) (hooks'.inclusion target))
    {n : Node} (hn : n.longestText ≤ length) :
    n.Everywhere (AgreesHere (Coincide w) src src hooks hooks') := by
  have hR := congruence_coincide w
  refine agreesHere_of_shorter (fun n here => ⟨?_, here, ?_, fun _ _ _ => included, ?_⟩) spliced hn
  · exact fun name _ s fits => ⟨rfl, fits⟩
  · exact fun _ _ _ _ values => hR.bind (hR.ofExcept _) fun f => coincide_call f values
  · exact fun _ _ _ _ _ c => coincide_runCommand src c

/-! ## 4. Enough rounds -/

section

variable {allowed : Source → Prop} [DecidablePred allowed] {stray : Evaluator}

open Evaluator

/-- **Expressions in strings.** If inclusions coincide from some round on, then so does the evaluation
of a node, as many rounds later as its strings are long. -/
theorem coincide_evalWith {src : Source} {inclusion : String → Eval Value} {enough : Nat}
    (included : ∀ k, enough ≤ k → ∀ target,
      Coincide w ((rounds allowed stray k).inclusion src target) (inclusion target))
    {length : Nat} {n : Node} (hn : n.longestText ≤ length) {k depth : Nat}
    (hk : enough + length ≤ k) (hdepth : length ≤ depth) :
    Coincide w (n.evalWith src ((rounds allowed stray k).hooks src))
      (n.evalWith src (Hooks.atDepth inclusion src depth)) := by
  have hR := congruence_coincide w
  -- An expression in a string has shorter strings, and takes one round and one level of depth.
  induction length generalizing n k depth with
  | zero =>
    refine hR.evalWith ⟨rfl, rfl, rfl⟩ (coincidesHere_of_shorter (fun m short => ?_) ?_ hn)
    · exact absurd short (Nat.not_lt_zero _)
    · rw [Hooks.inclusion_atDepth]
      exact included k (by omega)
  | succ length ih =>
    refine hR.evalWith ⟨rfl, rfl, rfl⟩ (coincidesHere_of_shorter (fun m short => ?_) ?_ hn)
    · obtain ⟨k, rfl⟩ := Nat.exists_eq_succ_of_ne_zero (n := k) (by omega)
      obtain ⟨depth, rfl⟩ := Nat.exists_eq_succ_of_ne_zero (n := depth) (by omega)
      have hm : Coincide w (m.evalWith src ((rounds allowed stray k).hooks src))
          (m.evalWith src (Hooks.atDepth inclusion src depth)) :=
        ih (Nat.le_of_lt_succ short) (by omega) (by omega)
      exact hR.bind hm fun v => hR.ofExcept _
    · rw [Hooks.inclusion_atDepth]
      exact included k (by omega)

/-- With enough rounds the statements of a document are evaluated as they are with hooks of the depth that
its strings ask for. -/
theorem coincide_evalStatements {src : Source} {inclusion : String → Eval Value} {enough : Nat}
    (included : ∀ k, enough ≤ k → ∀ target,
      Coincide w ((rounds allowed stray k).inclusion src target) (inclusion target))
    (nodes : List Node) {k : Nat} (hk : enough + longestTextAll nodes ≤ k) :
    Coincide w (evalStatements src ((rounds allowed stray k).hooks src) nodes)
      (evalStatements src (Hooks.atDepth inclusion src (longestTextAll nodes)) nodes) := by
  refine (congruence_coincide w).evalStatements ⟨rfl, rfl, rfl⟩ fun n hn => ?_
  exact coincide_evalWith included (Node.longestTextAll_le_iff.1 (Nat.le_refl _) n hn) hk
    (Nat.le_refl _)

end

open Evaluator

/-- As many rounds as are enough for an inclusion if so many documents can still be opened. -/
def roundsToOpen (w : World) (left : Nat) : Nat :=
  left * (w.longest + 2) + 1

/-- Each document that may still be opened costs as many rounds as its strings can be deep, and two more. -/
theorem roundsToOpen_succ (w : World) (left : Nat) :
    roundsToOpen w (left + 1) = roundsToOpen w left + w.longest + 2 := by
  unfold roundsToOpen
  rw [Nat.succ_mul]
  omega

/-- **Inclusions.** They coincide after so many rounds as the documents that are left take. A document
that is opened is one of them, and fewer are left then. -/
theorem coincide_inclusion {src₀ src : Source} {stray : Evaluator} (confined : src₀.Confined w src)
    {left n k : Nat} (hleft : src.left w ≤ left) (hn : left < n) (hk : roundsToOpen w left ≤ k)
    (target : String) :
    Coincide w ((rounds (src₀.Confined w) stray k).inclusion src target)
      (src.includeWithin n target) := by
  induction left generalizing src n k target with
  | zero =>
    obtain ⟨n, rfl⟩ := Nat.exists_eq_succ_of_ne_zero (n := n) (by omega)
    obtain ⟨k, rfl⟩ := Nat.exists_eq_succ_of_ne_zero (n := k) (by unfold roundsToOpen at hk; omega)
    refine coincide_includeWith (fun key hkey closed nodes short => ?_) target
    have := Source.left_nested_lt hkey closed key
    omega
  | succ left ih =>
    rw [roundsToOpen_succ] at hk
    -- One round is the inclusion, and one is opening the document.
    obtain ⟨n, rfl⟩ := Nat.exists_eq_succ_of_ne_zero (n := n) (by omega)
    obtain ⟨k, rfl⟩ := Nat.exists_eq_add_of_le (Nat.le_trans (Nat.le_add_left 2 _) hk)
    rw [Nat.add_comm 2 k] at hk ⊢
    refine coincide_includeWith (fun key hkey closed nodes short => ?_) target
    have fewer := Source.left_nested_lt hkey closed key
    have confined' := confined.nested hkey closed key
    show Coincide w (if src₀.Confined w (src.nested key key) then _ else _) _
    rw [if_pos confined']
    have included : ∀ k, roundsToOpen w left ≤ k → ∀ target,
        Coincide w ((rounds (src₀.Confined w) stray k).inclusion (src.nested key key) target)
          ((src.nested key key).includeWithin n target) :=
      fun k hk target => ih confined' (by omega) (by omega) hk target
    exact coincide_evalStatements included nodes (by omega)

end Eval

/-! ## 5. Evaluation as a whole -/

open Eval Evaluator

namespace Source

variable {src : Source}

/-- The rounds that are enough for all that is evaluated from a document. -/
theorem coincide_inclusion_of_reach (nodup : src.opened.Nodup) (w : World) {stray : Evaluator} (k : Nat)
    (hk : roundsToOpen w w.targets.length ≤ k) (target : String) :
    Coincide w ((rounds (src.Confined w) stray k).inclusion src target)
      (src.includeWithin (w.reach + 1) target) :=
  coincide_inclusion (confined_self nodup w) (List.length_filter_le _ _)
    (Nat.lt_succ_of_le w.length_targets_le) hk target

/-- **Evaluation comes to an end.** From any node or any statements and in any state, it is done after
so many rounds; what would be done after them makes no difference to the result and to the state that
is left, and neither does what would be done with documents that are open twice or are none of the
targets. So such documents are not opened, and no more documents are open inside each other than there
are targets: than can be fetched, unless others are in the cache. And what is evaluated inside a string
is shorter than the string. -/
theorem exists_enough_rounds (nodup : src.opened.Nodup) (s : State) :
    (∀ n : Node, ∃ k, ∀ stray,
      n.evalWith src ((rounds (src.Confined s.world) stray k).hooks src) s = n.eval src s) ∧
    (∀ nodes, ∃ k, ∀ stray,
      (rounds (src.Confined s.world) stray k).run src nodes s = src.run nodes s) ∧
    ((∀ key ∈ Table.keys s.world.cache, key ∈ s.world.host.fetchable) →
      s.world.targets = s.world.host.fetchable) ∧
    ∀ (text : String) (inner : List Char), .hole inner ∈ Piece.split text.toList →
      inner.length < text.length := by
  refine ⟨fun n => ?_, fun nodes => ?_, World.targets_eq_fetchable, fun text inner hole => ?_⟩
  · refine ⟨roundsToOpen s.world s.world.targets.length + n.longestText, fun stray => ?_⟩
    exact (coincide_evalWith (coincide_inclusion_of_reach nodup s.world) (Nat.le_refl _)
      (Nat.le_refl _) (Nat.le_refl _) s s.world.fits_self).1
  · refine ⟨roundsToOpen s.world s.world.targets.length + longestTextAll nodes + 1, fun stray => ?_⟩
    show (if src.Confined s.world src then _ else _ : Eval Unit) s = _
    rw [if_pos (confined_self nodup s.world)]
    exact (coincide_evalStatements (coincide_inclusion_of_reach nodup s.world) nodes
      (Nat.le_refl _) s s.world.fits_self).1
  · have := Piece.length_of_hole hole
    rwa [String.length_toList] at this

/-- Two remote documents in the cache that include each other, by names that their caller has. -/
def mutualState : State :=
  ⟨.root [("t", .str "http://x/a"), ("u", .str "http://x/b")],
    ⟨⟨⟨[], []⟩, "/", [], []⟩, .fresh,
      [("http://x/a", [.inclusion (.ident "u") ⟨1, 1⟩]),
        ("http://x/b", [.inclusion (.ident "t") ⟨1, 1⟩])], []⟩⟩

@[inherit_doc mutualState]
def mutualCaller : Source :=
  ⟨⟨.default, [], fun _ _ => .error "no commands"⟩, "<input>", "/", []⟩

/-- Two documents that include each other: evaluation ends with the error that names the circle. -/
theorem exists_enough_rounds_mutual :
    mutualCaller.opened.Nodup ∧
      (∃ e, (mutualCaller.run [.inclusion (.ident "t") ⟨2, 1⟩] mutualState).1 =
        .error (.error e) ∧ e.root = .circularInclusion "http://x/a") ∧
      ∃ k, ∀ stray, (rounds (mutualCaller.Confined mutualState.world) stray k).run mutualCaller
          [.inclusion (.ident "t") ⟨2, 1⟩] mutualState =
        mutualCaller.run [.inclusion (.ident "t") ⟨2, 1⟩] mutualState := by
  have nodup : mutualCaller.opened.Nodup := .nil
  exact ⟨nodup, ⟨_, rfl, rfl⟩, (exists_enough_rounds nodup mutualState).2.1 _⟩

end Source

end BlockConfig
