import BlockConfig.Proofs.Eval.Activity
import BlockConfig.Proofs.Grammar.Parsed
import BlockConfig.Proofs.Inclusion.Closed

/-!
What evaluation writes to its scope.

A scope is written to in one way only, by setting a name to a value, and the inclusion of a document sets
the names of its variables. So a scope comes from what it was before by setting names one after another
(`Scope.Rewritten`), whether the evaluation succeeds or not, and a name that is bound stays bound.

Which names are set can be read off the tree, as long as nothing is included in the scope: they are those
that a node sets itself and those that the nodes beside it set, the ones that are evaluated in the same
scope (`Node.Sets`). In a tree of the grammar these are few. What stands where a value is expected sets
nothing, so that a statement sets the names that it is about, and an `IF` chain those that the statements
in its branches set (`Node.Binds`). Whether something is included in the scope is said of the
evaluation and not of the tree (`Activity.Includes`): what bodies, maps, arrows and pipelines include does
not count, since it is included in their scopes, and what is found in strings and operands does.
-/

set_option autoImplicit false

namespace BlockConfig

/-! ## 1. Scopes that have been written to -/

/-- The second scope comes from the first by setting some names, one after another. -/
def Scope.Rewritten (names : String → Prop) : Scope → Scope → Prop :=
  Relation.ReflTransGen fun s t => ∃ name v, names name ∧ t = s.set name v

namespace Scope.Rewritten

variable {names more : String → Prop} {s t : Scope}

theorem refl (s : Scope) : Rewritten names s s :=
  Relation.ReflTransGen.refl

theorem of_eq (h : t = s) : Rewritten names s t := by
  rw [h]
  exact refl s

/-- Settings that follow each other are one sequence of settings. -/
theorem trans {u : Scope} (h : Rewritten names s t) (h' : Rewritten names t u) : Rewritten names s u :=
  Relation.ReflTransGen.trans h h'

theorem set {name : String} (known : names name) (s : Scope) (v : Value) :
    Rewritten names s (s.set name v) :=
  Relation.ReflTransGen.single ⟨name, v, known, rfl⟩

/-- What was rewritten under some names was so under any names that include them. -/
theorem mono (h : Rewritten names s t) (hmore : ∀ name, names name → more name) :
    Rewritten more s t := by
  induction h with
  | refl => exact refl s
  | tail _ step ih =>
    obtain ⟨name, v, known, rfl⟩ := step
    exact ih.trans (set (hmore name known) _ v)

/-- The variables of a document are set one after another. -/
theorem extend (s : Scope) (vars : Table Value) : Rewritten (fun _ => True) s (s.extend vars) := by
  induction vars generalizing s with
  | nil => exact refl s
  | cons entry vars ih => exact (set trivial s entry.2).trans (ih (s.set entry.1 entry.2))

/-- A name that is bound stays bound. -/
theorem bound (h : Rewritten names s t) {name : String} (bound : (s.findOwn? name).isSome = true) :
    (t.findOwn? name).isSome = true := by
  induction h with
  | refl => exact bound
  | tail _ step ih =>
    obtain ⟨name', v, -, rfl⟩ := step
    rw [findOwn?_set]
    split
    · rfl
    · exact ih

/-- The binding of a name that is not set is what it was. -/
theorem findOwn?_eq (h : Rewritten names s t) {name : String} (other : ¬ names name) :
    t.findOwn? name = s.findOwn? name := by
  induction h with
  | refl => rfl
  | tail _ step ih =>
    obtain ⟨name', v, known, rfl⟩ := step
    have apart : name ≠ name' := fun same => other (same ▸ known)
    rw [findOwn?_set, if_neg apart, ih]

/-- A scope of which no names are set is what it was. -/
theorem eq_of_none (h : Rewritten names s t) (none : ∀ name, ¬ names name) : t = s := by
  induction h with
  | refl => rfl
  | tail _ step _ =>
    obtain ⟨name', v, known, -⟩ := step
    exact absurd known (none name')

end Scope.Rewritten

namespace Eval

open Scope (Rewritten)

/-! ## 2. Names that are bound stay bound -/

/-- From a state, an evaluation does nothing to its scope but set some names. -/
def SetsOnly (names : String → Prop) {α : Type} (x : Eval α) (s : State) : Prop :=
  Rewritten names s.scope (x s).2.scope

section

variable {α β : Type} {names : String → Prop} {x : Eval α} {s : State}

/-- A sequence sets only what its parts do, the second of them from the state that the first has left. -/
theorem SetsOnly.bind {f : α → Eval β} (h : SetsOnly names x s)
    (hf : ∀ a t, x s = (.ok a, t) → SetsOnly names (f a) t) : SetsOnly names (x >>= f) s := by
  unfold SetsOnly at h ⊢
  rw [bind_apply]
  generalize x s = ending at h hf
  rcases ending with ⟨fault | a, t⟩
  · exact h
  · exact h.trans (hf a t rfl)

/-- Catching a failure keeps what was set before it. -/
theorem SetsOnly.attempt (h : SetsOnly names x s) : SetsOnly names (attempt x) s := by
  unfold SetsOnly
  rw [state_attempt]
  exact h

/-- So does locating it. -/
theorem SetsOnly.locating (file : String) (pos : Option Position) (h : SetsOnly names x s) :
    SetsOnly names (locating file pos x) s := by
  unfold SetsOnly
  rw [state_locating]
  exact h

/-- What runs in a scope of its own sets nothing outside. -/
theorem setsOnly_inChild (x : Eval Unit) (s : State) : SetsOnly names (inChild x) s :=
  .of_eq (scope_within _ _ s)

theorem setsOnly_call (f : Callable) (values : List Value) (s : State) :
    SetsOnly names (call f values) s :=
  .of_eq (by rw [state_call])

theorem setsOnly_runCommand (src : Source) (c : Command) (s : State) :
    SetsOnly names (runCommand src c) s :=
  .of_eq (by rw [runCommand_apply, State.noting_scope])

end

/-- **All evaluations only set names,** inclusions left aside. A scope inside is given up with all that was
set in it, and a function that is called has no access to the scope. -/
theorem pervasive_setsOnly : Pervasive fun x => ∀ s, SetsOnly (fun _ => True) x s where
  congruence :=
    { pure _ s := .refl s.scope
      bind h hf s := (h s).bind fun a t _ => hf a t
      fail _ s := .refl s.scope
      own h s := h s.scope s.scope rfl s
      host h s := h s.world.host s
      set _ v s := .set trivial s.scope v
      attempt h s := (h s).attempt
      locating file pos _ _ h s := (h s).locating file pos
      inChild _ s := setsOnly_inChild _ s
      aside _ s := .refl s.scope }
  world s := .refl s.scope
  named _ s := .refl s.scope
  called f values s := setsOnly_call f values s
  commanded src c s := setsOnly_runCommand src c s

/-- An inclusion sets the variables of its document. -/
theorem setsOnly_includeWith (run : Source → List Node → Eval Unit) (src : Source) (target : String)
    (s : State) : SetsOnly (fun _ => True) (includeWith run src target) s := by
  unfold SetsOnly
  have h := included run src target s
  generalize (includeWith run src target s).1 = r at h
  generalize (includeWith run src target s).2 = s' at h
  have same {other : Scope → Scope} {act : Eval Unit} {s s' : State}
      {r : Except Fault (Table Value)} (h : within other act s = (r, s')) : s'.scope = s.scope := by
    rw [← scope_within other act s, h]
  cases h with
  | lost | circular | unfetched | unread => exact .refl _
  | againFailed found closed cached ran => exact .of_eq (same ran)
  | anewFailed found closed missing fetched read ran =>
    exact .of_eq ((same ran).trans (State.noting_scope _ _))
  | @again _ _ vars t found closed cached ran =>
    rw [State.taking_scope, same ran]
    exact .extend s.scope vars
  | @anew _ _ _ vars t found closed missing fetched read ran =>
    rw [State.taking_scope, State.keeping_scope, same ran, State.noting_scope]
    exact .extend s.scope vars

/-- An inclusion may set any name: which ones depends on the document. -/
theorem setsOnly_includeWithin (n : Nat) (src : Source) (target : String) (s : State) :
    SetsOnly (fun _ => True) (src.includeWithin n target) s := by
  cases n with
  | zero => exact .refl s.scope
  | succ n => exact setsOnly_includeWith _ src target s

end Eval

/-! ## 3. The names that a tree sets -/

namespace Node

/-- A node sets a name in the scope that it is evaluated in. -/
inductive Sets (name : String) : Node → Prop
  | here {n : Node} (target : name ∈ n.targets) : Sets name n
  | beside {n m : Node} (beside : m ∈ n.beside) (h : Sets name m) : Sets name n

/-- A statement binds a name: it is about the name itself, or it is an `IF` chain, and a statement in
one of the branches binds it. -/
inductive Binds (name : String) : Node → Prop
  | target {n : Node} (target : name ∈ n.targets) : Binds name n
  | branch {branches : List (Branch Node)} {b : Branch Node} {m : Node} (mem : b ∈ branches)
    (inside : m ∈ b.body) (h : Binds name m) : Binds name (.control branches)

variable {n m : Node} {name : String}

/-- Something is included where a node is evaluated: at an inclusion that is the node, is beside it or is
found in a string. -/
inductive IncludesBeside : Node → Prop
  | here (target : Node) (pos : Position) : IncludesBeside (.inclusion target pos)
  | beside {n m : Node} (beside : m ∈ n.beside) (h : IncludesBeside m) : IncludesBeside n
  | spliced {n m : Node} (found : n.Splices m) (h : IncludesBeside m) : IncludesBeside n

/-- An expression has no names of its own to set. -/
theorem targets_of_isValue (h : n.isValue = true) : n.targets = [] := by
  cases n with
  | assign | assignEach | destructure | block | container | arrow => cases h
  | _ => rfl

/-- In a tree of the grammar a node beside another one is a value, or it is in a branch. -/
theorem isValue_or_inside_of_mem_beside (fits : n.FitsHere) (h : m ∈ n.beside) :
    m.isValue = true ∨ ∃ branches b, n = .control branches ∧ b ∈ branches ∧ m ∈ b.body := by
  cases n with
  | assign target value style =>
    rw [List.mem_singleton.1 h]
    exact .inl fits.1
  | assignEach pairs =>
    obtain ⟨pair, hp, rfl⟩ := List.mem_map.1 h
    exact .inl (fits.2 pair hp)
  | destructure targets source =>
    rw [List.mem_singleton.1 h]
    exact .inl fits.2
  | control branches =>
    obtain ⟨b, hb, hm⟩ := List.mem_flatMap.1 h
    rcases List.mem_append.1 hm with hm | hm
    · exact .inl ((fits.2.of_mem hb).1 m (Option.mem_toList.1 hm))
    · exact .inr ⟨branches, b, rfl, hb, hm⟩
  | list items => exact .inl (fits m h)
  | call name args pos => exact .inl (fits m h)
  | member left name =>
    rw [List.mem_singleton.1 h]
    exact .inl fits.1
  | binary op left right =>
    rcases List.mem_pair.1 h with rfl | rfl
    · exact .inl fits.1
    · exact .inl fits.2.1
  | unary op operand =>
    rw [List.mem_singleton.1 h]
    exact .inl fits.1
  | ternary condition yes no =>
    rcases List.mem_cons.1 h with rfl | h
    · exact .inl fits.1
    · rcases List.mem_pair.1 h with rfl | rfl
      · exact .inl fits.2.1
      · exact .inl fits.2.2.1
  | group inner =>
    rw [List.mem_singleton.1 h]
    exact .inl fits
  | inclusion target pos =>
    rw [List.mem_singleton.1 h]
    exact .inl fits
  | exec cmd args dir pos =>
    rcases List.mem_cons.1 h with rfl | h
    · exact .inl fits.1
    · rcases List.mem_append.1 h with h | h
      · exact .inl (fits.2.1 m (Option.mem_toList.1 h))
      · exact .inl (fits.2.2 m (Option.mem_toList.1 h))
  | extract source index => exact fits.elim
  | block | container | arrow | map | combinedMap | pipeline | literal | ident | envRef | comment =>
    cases h

/-- What stands where a value is expected sets nothing. -/
theorem not_sets_of_isValue (fits : n.Everywhere FitsHere) (value : n.isValue = true) :
    ¬ n.Sets name := by
  intro h
  induction h with
  | here target =>
    rw [targets_of_isValue value] at target
    exact absurd target List.not_mem_nil
  | beside hm _ ih =>
    refine ih (fits.child _ (mem_children_of_mem_beside hm)) ?_
    rcases isValue_or_inside_of_mem_beside fits.here hm with hv | ⟨branches, b, rfl, -, -⟩
    · exact hv
    · cases value

/-- **In a tree of the grammar a node sets the names that it binds as a statement.** Beside a node there are
values and the statements of branches, and no value of the grammar sets a name. -/
theorem sets_iff_binds (fits : n.Everywhere FitsHere) : n.Sets name ↔ n.Binds name := by
  constructor
  · intro h
    induction h with
    | here target => exact .target target
    | beside hm h ih =>
      have fits' := fits.child _ (mem_children_of_mem_beside hm)
      rcases isValue_or_inside_of_mem_beside fits.here hm with hv | ⟨branches, b, rfl, hb, hin⟩
      · exact absurd h (not_sets_of_isValue fits' hv)
      · exact .branch hb hin (ih fits')
  · intro h
    clear fits
    induction h with
    | target target => exact .here target
    | branch hb hin _ ih =>
      exact .beside (List.mem_flatMap.2 ⟨_, hb, List.mem_append_right _ hin⟩) ih

/-- Expressions that are found in strings set nothing. -/
theorem not_sets_of_splices (h : n.Splices m) : ¬ m.Sets name := by
  obtain ⟨_, _, _, inner, file, -, -, read⟩ := h
  obtain ⟨fits, value⟩ := Hole.fits_of_read read
  exact not_sets_of_isValue fits value

end Node

/-! ## 4. What an evaluation sets -/

namespace Activity

open Eval
open Scope (Rewritten)

/-- An activity does nothing to its scope but set names. -/
theorem setsOnly_ending (a : Activity) :
    SetsOnly (fun _ => True) (a.node.evalWith a.src a.hooks) a.state :=
  pervasive_setsOnly.evalWith_atDepth (setsOnly_includeWithin a.documents a.src) a.strings a.node a.state

/-- Something is included in the scope of an activity. -/
inductive Includes : Activity → Prop
  | here {a : Activity} {target : String} {t : State}
    (runs : Runs a.src a.hooks a.node a.state true (.included target) t) : Includes a
  | part {a b : Activity} {statement : Bool} (part : Part a true statement b) (h : Includes b) :
    Includes a

/-- What is included in the scope of an activity can be seen in the tree. -/
theorem Includes.includesBeside {a : Activity} (h : a.Includes) : a.node.IncludesBeside := by
  induction h with
  | @here a target t runs =>
    obtain ⟨k, pos, same⟩ := runs.eq_inclusion
    rw [same]
    exact .here k pos
  | part part _ ih =>
    cases part with
    | operand runs => exact .beside (runs.mem_beside rfl) ih
    | statement runs => exact .beside (runs.mem_beside rfl) ih
    | spliced room runs => exact .spliced runs.splices ih

/-- To set only some names is inherited by sequences, so it is enough to look at what a node does itself. -/
theorem inherited_setsOnly (names : String → Prop) : Inherited (SetsOnly names) where
  pure _ s := .refl s.scope
  bind := SetsOnly.bind
  fail _ s := .refl s.scope
  scope s := .refl s.scope
  world s := .refl s.scope
  attempt := SetsOnly.attempt

/-- What happens to a scope inside does not matter. -/
theorem encloses_setsOnly (names : String → Prop) : Encloses (SetsOnly names) fun _ _ => True where
  inChild {x s} _ := setsOnly_inChild x s
  aside {_ _ s} _ := .refl s.scope

theorem inherited_true : Inherited fun _ _ => True :=
  ⟨fun _ _ => trivial, fun _ _ => trivial, fun _ _ => trivial, fun _ => trivial, fun _ => trivial,
    fun _ => trivial⟩

/-- **An activity sets the names that its node sets,** if nothing is included in its scope. By induction
along the parts that run in the same scope; those in a scope inside do not matter. -/
theorem setsOnly_of_not_includes (a : Activity) (nothing : ¬ a.Includes) :
    SetsOnly (fun name => a.node.Sets name) (a.node.evalWith a.src a.hooks) a.state := by
  induction a using induction_parts with
  | step a ih =>
    -- The parts in the same scope include nothing either, and set the names that their nodes set.
    have part {b : Activity} {statement : Bool} (h : Part a true statement b) :
        SetsOnly (fun name => b.node.Sets name) (b.node.evalWith b.src b.hooks) b.state :=
      ih true statement b h fun inc => nothing (.part h inc)
    have below {m : Node} {t : State} (hm : m ∈ a.node.beside)
        (h : SetsOnly (fun name => m.Sets name) (m.evalWith a.src a.hooks) t) :
        SetsOnly (fun name => a.node.Sets name) (m.evalWith a.src a.hooks) t :=
      h.mono fun name sets => .beside hm sets
    have hP := inherited_setsOnly fun name => a.node.Sets name
    refine evalWith_of_runs hP inherited_true (encloses_setsOnly _) (fun _ _ _ => trivial)
      (fun name target v t => .set (.here target) t.scope v) setsOnly_call
      (fun _ => setsOnly_runCommand a.src) (fun task t runs => ?_) fun _ _ _ => trivial
    cases task with
    | operand m => exact below (runs.mem_beside rfl) (part (.operand runs))
    | statement m =>
      exact (below (runs.mem_beside rfl) (part (.statement runs))).locating a.src.file m.pos?
    | spliced m =>
      refine inherited_splice hP fun depth room => (part (.spliced room runs)).mono ?_
      exact fun name sets => absurd sets (Node.not_sets_of_splices runs.splices)
    | included target => exact absurd (.here runs) nothing

end Activity

namespace Node

/-- **What evaluation does to its scope.** However the evaluation of a node ends, names that were bound
are bound afterwards. If nothing was included in the scope, a binding is another one only if the node sets
the name, and for a node of the grammar that means that it binds it as a statement. An expression then
leaves the scope as it was. -/
theorem scope_eval (src : Source) (n : Node) (s : State) :
    let scope := (n.eval src s).2.scope
    (∀ name, (s.scope.findOwn? name).isSome = true → (scope.findOwn? name).isSome = true) ∧
      (¬ (Activity.whole src n s).Includes →
        (∀ name, scope.findOwn? name ≠ s.scope.findOwn? name → n.Sets name) ∧
          (n.Everywhere FitsHere →
            (∀ name, scope.findOwn? name ≠ s.scope.findOwn? name → n.Binds name) ∧
              (n.isValue = true → scope = s.scope))) := by
  dsimp only
  rw [← Activity.ending_whole]
  have written := Activity.setsOnly_ending (Activity.whole src n s)
  refine ⟨fun name bound => written.bound bound, fun nothing => ?_⟩
  have sets := Activity.setsOnly_of_not_includes (Activity.whole src n s) nothing
  have changed : ∀ name, (Activity.whole src n s).ending.2.scope.findOwn? name ≠
      s.scope.findOwn? name → n.Sets name := by
    intro name other
    by_contra not
    exact other (sets.findOwn?_eq not)
  refine ⟨changed, fun fits => ⟨fun name other => ?_, fun value => ?_⟩⟩
  · exact (sets_iff_binds fits).1 (changed name other)
  · exact sets.eq_of_none fun name => not_sets_of_isValue fits value

/-- An assignment of a map in which a document is included, and a state in which the document is in the
cache. -/
def assignsInclusion : Node :=
  .assign ⟨"a", ⟨1, 1⟩⟩ (.map [.inclusion (.ident "t") ⟨1, 7⟩]) .equals

@[inherit_doc assignsInclusion]
def stateOfInclusion : State :=
  ⟨.root [("a", .int 0), ("b", .int 0), ("t", .str "http://x/d")],
    ⟨⟨⟨[], []⟩, "/", [], []⟩, .fresh,
      [("http://x/d", [.assign ⟨"b", ⟨1, 1⟩⟩ (.literal (.int 1)) .equals])], []⟩⟩

/-- A document that is included within a map, and sets a name there: it does not get out of the map. -/
theorem scope_eval_assignsInclusion :
    let src : Source := ⟨⟨.default, [], fun _ _ => .error "no commands"⟩, "<input>", "/", []⟩
    let scope := (assignsInclusion.eval src stateOfInclusion).2.scope
    ¬ (Activity.whole src assignsInclusion stateOfInclusion).Includes ∧
      assignsInclusion.Everywhere FitsHere ∧
      scope.own = [("a", .map [("b", .int 1)]), ("b", .int 0), ("t", .str "http://x/d")] ∧
      ∀ name, scope.findOwn? name ≠ stateOfInclusion.scope.findOwn? name →
        assignsInclusion.Binds name := by
  intro src scope
  have nothing : ¬ (Activity.whole src assignsInclusion stateOfInclusion).Includes := by
    intro h
    -- The inclusion is in the map, and what is in a map is not beside it.
    have h := h.includesBeside
    cases h with
    | beside mem h =>
      cases List.mem_singleton.1 mem
      cases h with
      | beside mem => exact absurd mem List.not_mem_nil
      | spliced found =>
        obtain ⟨_, _, _, _, _, h, -⟩ := found
        cases h
    | spliced found =>
      obtain ⟨_, _, _, _, _, h, -⟩ := found
      cases h
  have target : (Node.ident "t").Everywhere FitsHere :=
    .intro trivial fun m hm => absurd hm List.not_mem_nil
  have inclusion : (Node.inclusion (.ident "t") ⟨1, 7⟩).Everywhere FitsHere :=
    .intro rfl (List.forall_mem_singleton.2 target)
  have map : (Node.map [.inclusion (.ident "t") ⟨1, 7⟩]).Everywhere FitsHere :=
    .intro ⟨List.forall_mem_singleton.2 rfl, rfl⟩ (List.forall_mem_singleton.2 inclusion)
  have fits : assignsInclusion.Everywhere FitsHere :=
    .intro ⟨rfl, fun flag => by cases flag⟩ (List.forall_mem_singleton.2 map)
  obtain ⟨-, changed⟩ := scope_eval src assignsInclusion stateOfInclusion
  exact ⟨nothing, fits, rfl, ((changed nothing).2 fits).1⟩

end Node

end BlockConfig
