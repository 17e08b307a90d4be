import BlockConfig.Proofs.Eval.Parts
import BlockConfig.Proofs.Eval.Property
import BlockConfig.Proofs.Inclusion.Outcome
import Mathlib.Logic.Relation

/-!
The activities of an evaluation.

`Eval.Runs` says what a node runs, but not how evaluation goes on where it leaves the tree. An `Activity`
has all that decides this: the document, how many documents may still be opened and how deep strings may
still go, the node and the state. What a node runs is then an activity again, and what an inclusion runs
are the statements of the document that it enters (`Activity.Part`). To evaluate a document or an expression
is to go through a tree of activities, of which every path ends: fewer documents can be opened inside a
document, strings go less deep inside a string, and all other parts are smaller
(`Activity.induction_parts`).

Of a part it matters where it runs and how. It may run in the scope of what it is a part of or in one
inside it, and it may be run as a statement, in which its errors are located.
-/

set_option autoImplicit false

namespace BlockConfig

/-! ## 1. What a node runs is below it -/

/-- The nodes directly below a node that are evaluated in the scope of the node. -/
def Node.beside : Node → List Node
  | block .. | container .. | arrow .. | map _ | combinedMap _ | pipeline .. => []
  | n => n.children

theorem Node.mem_children_of_mem_beside {n m : Node} (h : m ∈ n.beside) : m ∈ n.children := by
  unfold beside at h
  split at h
  all_goals first
    | exact absurd h List.not_mem_nil
    | exact h

namespace Eval

variable {src : Source} {hooks : Hooks} {n m : Node} {s t : State} {place : Bool} {task : Task}

/-- The node that is evaluated when the tree is not left. -/
def Task.node? : Task → Option Node
  | .operand n | .statement n => some n
  | .spliced _ | .included _ => none

theorem mem_children_of_operand? (h : n.operand? = some m) : m ∈ n.children ∧ n.beside = n.children := by
  cases n with
  | assign | destructure | extract | member | binary | unary | ternary | group | inclusion =>
    cases h
    exact ⟨by simp [Node.children], rfl⟩
  | _ => cases h

theorem children_of_items? {ms : List Node} (h : n.items? = some ms) :
    n.children = ms ∧ n.beside = n.children := by
  cases n with
  | list | call =>
    cases h
    exact ⟨rfl, rfl⟩
  | _ => cases h

theorem children_of_body? {ms : List Node} (h : n.body? = some ms) : n.children = ms := by
  cases n with
  | block | container | arrow | map =>
    cases h
    rfl
  | _ => cases h

theorem mem_of_mem_blocksLast {items : List Node} (h : m ∈ Node.blocksLast items) : m ∈ items := by
  rcases List.mem_append.1 h with h | h
  · exact List.mem_of_mem_filter h
  · exact List.mem_of_mem_filter h

/-- The step of a name is the value of a statement of the pipeline. -/
theorem mem_of_lookup_stepNodes {body : List Node} {name : String}
    (h : (Node.stepNodes body).lookup name = some m) : ∃ k ∈ body, m ∈ k.children := by
  induction body with
  | nil => cases h
  | cons k ks ih =>
    have later : (Node.stepNodes ks).lookup name = some m → ∃ k' ∈ k :: ks, m ∈ k'.children := by
      intro h
      obtain ⟨k', hk', hm⟩ := ih h
      exact ⟨k', List.mem_cons_of_mem k hk', hm⟩
    cases k with
    | assign target value style =>
      rw [Node.stepNodes, List.lookup_cons] at h
      cases same : name == target.name with
      | true =>
        rw [same] at h
        cases h
        exact ⟨_, List.mem_cons_self, List.mem_cons_self⟩
      | false =>
        rw [same] at h
        exact later h
    | _ => exact later h

/-- What runs in the scope of a node is directly below the node. -/
theorem Runs.mem_beside (h : Runs src hooks n s true task t) (node : task.node? = some m) :
    m ∈ n.beside := by
  have branch {branches : List (Branch Node)} {b : Branch Node} (hb : b ∈ branches)
      (hm : m ∈ b.condition.toList ++ b.body) : m ∈ (Node.control branches).beside :=
    List.mem_flatMap.2 ⟨b, hb, hm⟩
  cases h with
  | operand first =>
    cases node
    obtain ⟨hm, same⟩ := mem_children_of_operand? first
    rwa [same]
  | item items turn =>
    cases node
    obtain ⟨hitems, same⟩ := children_of_items? items
    rw [same, hitems]
    exact turn.mem
  | right gives needed =>
    cases node
    exact List.mem_cons_of_mem _ List.mem_cons_self
  | @choice condition yes no _ _ _ taken ran chosen =>
    cases node
    refine List.mem_cons_of_mem condition ?_
    cases taken with
    | true => exact List.mem_cons_self
    | false => exact List.mem_cons_of_mem yes List.mem_cons_self
  | pair turn =>
    cases node
    exact List.mem_map_of_mem turn.mem
  | condition turn =>
    cases node
    exact branch turn.mem List.mem_cons_self
  | branch turn taken later =>
    cases node
    exact branch turn.mem (List.mem_append_right _ later.mem)
  | program allowed =>
    cases node
    exact List.mem_cons_self
  | arguments allowed gives isProgram =>
    cases node
    exact List.mem_cons_of_mem _ List.mem_cons_self
  | directory allowed gives isProgram arguments =>
    cases node
    exact List.mem_cons_of_mem _ (List.mem_append_right _ List.mem_cons_self)
  -- cases node => What a hole holds is found in a string, and a document that is included is no node.
  | hole | inclusion => cases node

/-- What a node runs without leaving the tree is one level below the node or two. -/
theorem Runs.below (h : Runs src hooks n s place task t) (node : task.node? = some m) :
    m ∈ n.children ∨ ∃ k ∈ n.children, m ∈ k.children := by
  cases place with
  | true => exact .inl (Node.mem_children_of_mem_beside (h.mem_beside node))
  | false =>
    cases h with
    | body body turn =>
      cases node
      rw [children_of_body? body]
      exact .inl turn.mem
    | entry turn =>
      cases node
      exact .inl (mem_of_mem_blocksLast turn.mem)
    | step order turn found =>
      cases node
      exact .inr (mem_of_lookup_stepNodes found)

theorem Runs.sizeOf_lt (h : Runs src hooks n s place task t) (node : task.node? = some m) :
    sizeOf m < sizeOf n := by
  rcases h.below node with hm | ⟨k, hk, hm⟩
  · exact Node.sizeOf_lt_of_mem_children hm
  · exact Nat.lt_trans (Node.sizeOf_lt_of_mem_children hm) (Node.sizeOf_lt_of_mem_children hk)

/-- The tree is left in the scope of the node. -/
theorem Runs.here_of_leaves (h : Runs src hooks n s place task t) (leaves : task.node? = none) :
    place = true := by
  cases h with
  | body | entry | step => cases leaves
  | _ => rfl

/-- An expression that is found in a string is in a hole of the string. -/
theorem Runs.splices (h : Runs src hooks n s place (.spliced m) t) : n.Splices m := by
  cases h with
  | @hole text quote tag inner _ _ _ turn read =>
    exact ⟨text, quote, tag, inner, src.file, rfl, turn.mem, read⟩

/-- Nothing but an inclusion includes a document. -/
theorem Runs.eq_inclusion {target : String} (h : Runs src hooks n s place (.included target) t) :
    ∃ k pos, n = .inclusion k pos := by
  cases h with
  | inclusion => exact ⟨_, _, rfl⟩

/-- **What everything keeps holds where a part begins** if it holds where the node does. In between the node
may only have evaluated operands, bound values, filled in pieces of a text and done steps of a pipeline. -/
theorem Runs.keeps {I : State → Prop} (inside : ∀ s, I s → I s.inside)
    (finishes : ∀ m s t, Finishes src hooks m s t → I s → I t)
    (assigns : ∀ pair s t, Assigns src hooks pair s t → I s → I t)
    (fills : ∀ piece s t, Fills src hooks piece s t → I s → I t)
    (done : ∀ steps name s t, StepDone src hooks steps name s t → I s → I t)
    (runs : Runs src hooks n s place task t) (hs : I s) : I t := by
  have gives {m : Node} {v : Value} {s t : State} (h : Gives src hooks m s v t) (hs : I s) : I t := by
    obtain ⟨r, ran, -⟩ := h
    exact finishes m s t ⟨r, ran⟩ hs
  have decides (taken : Bool) (b : Branch Node) (s t : State) (h : Decides src hooks taken b s t)
      (hs : I s) : I t := by
    obtain ⟨_ | m, body, pos⟩ := b
    · obtain ⟨-, rfl⟩ := h
      exact hs
    · obtain ⟨v, h, -⟩ := h
      exact gives h hs
  cases runs with
  | operand | program => exact hs
  | right given | arguments _ given | inclusion given => exact gives given hs
  | choice ran => exact finishes _ _ _ ⟨_, ran⟩ hs
  | item _ turn => exact turn.keeps (fun _ _ _ ⟨_, h⟩ => gives h) hs
  | pair turn => exact turn.keeps assigns hs
  | body _ turn | entry turn => exact turn.keeps finishes (inside s hs)
  | condition turn => exact turn.keeps (decides false) hs
  | branch turn taken later =>
    exact later.keeps finishes (decides true _ _ _ taken (turn.keeps (decides false) hs))
  | step _ turn => exact turn.keeps (done _) (inside s hs)
  | @directory _ _ args _ _ u _ _ _ _ _ given _ ran =>
    have hu : I u := gives given hs
    cases args with
    | none =>
      cases ran
      exact hu
    | some k =>
      -- The arguments were an operand, of which it is not said that it has given a value.
      obtain ⟨r, v, ran, taken⟩ := bind_eq_ok ran
      obtain ⟨-, rfl⟩ := eq_of_ofExcept taken
      exact finishes k u _ ⟨r, ran⟩ hu
  | hole turn => exact turn.keeps fills hs

/-! ## 2. What an inclusion enters -/

/-- The document that an inclusion runs, and the state that it is run from. -/
inductive Enters (src : Source) (target : String) (s : State) : Source → List Node → State → Prop
  /-- From the cache. -/
  | again {place : Location} {nodes : List Node} (found : src.find s.world.host target = .ok place)
    (closed : place.key ∉ src.opened) (cached : Table.find? s.world.cache place.key = some nodes) :
    Enters src target s (src.nested place.key place.key) nodes s.inside
  /-- For the first time. -/
  | anew {place : Location} {text : String} {nodes : List Node}
    (found : src.find s.world.host target = .ok place) (closed : place.key ∉ src.opened)
    (missing : Table.find? s.world.cache place.key = none)
    (fetched : s.world.host.textAt place = .ok text) (read : Node.parse text place.key = .ok nodes) :
    Enters src target s (src.nested place.key place.key) nodes
      { s.noting place.event with scope := .root [] }

/-- It is run by the same engine. -/
theorem Enters.engine {inner : Source} {target : String} {nodes : List Node}
    (h : Enters src target s inner nodes t) : inner.engine = src.engine := by
  cases h <;> rfl

end Eval

namespace Source

/-- Runs a document, with so many documents left that may be opened inside it. -/
def runWithin (left : Nat) (src : Source) (nodes : List Node) : Eval Unit :=
  evalStatements src (Hooks.atDepth (src.includeWithin left) src (longestTextAll nodes)) nodes

theorem includeWithin_succ (left : Nat) (src : Source) (target : String) :
    src.includeWithin (left + 1) target = Eval.includeWith (runWithin left) src target :=
  rfl

theorem run_apply (src : Source) (nodes : List Node) (s : State) :
    src.run nodes s = runWithin (s.world.reach + 1) src nodes s :=
  rfl

end Source

/-! ## 3. Activities and their parts -/

/-- A node under evaluation. -/
structure Activity where
  src : Source
  /-- How many documents may still be opened inside each other. -/
  documents : Nat
  /-- How deep in strings expressions may still be found. -/
  strings : Nat
  node : Node
  state : State

namespace Activity

open Eval

/-- How the evaluation goes on where it leaves the tree. -/
def hooks (a : Activity) : Hooks :=
  Hooks.atDepth (a.src.includeWithin a.documents) a.src a.strings

/-- How the evaluation ends, and the state that it leaves. -/
def ending (a : Activity) : Except Fault Value × State :=
  a.node.evalWith a.src a.hooks a.state

/-- What an activity runs, an activity itself: whether it runs in the scope of the other one, and whether
it is run as a statement. -/
inductive Part (a : Activity) : (here statement : Bool) → Activity → Prop
  | operand {here : Bool} {m : Node} {t : State}
    (runs : Runs a.src a.hooks a.node a.state here (.operand m) t) :
    Part a here false { a with node := m, state := t }
  | statement {here : Bool} {m : Node} {t : State}
    (runs : Runs a.src a.hooks a.node a.state here (.statement m) t) :
    Part a here true { a with node := m, state := t }
  | spliced {depth : Nat} {m : Node} {t : State} (room : a.strings = depth + 1)
    (runs : Runs a.src a.hooks a.node a.state true (.spliced m) t) :
    Part a true false { a with strings := depth, node := m, state := t }
  | included {left : Nat} {target : String} {inner : Source} {nodes : List Node} {m : Node}
    {t u v : State} (room : a.documents = left + 1)
    (runs : Runs a.src a.hooks a.node a.state true (.included target) t)
    (enters : Enters a.src target t inner nodes u)
    (turn : InTurn (Finishes inner
      (Hooks.atDepth (inner.includeWithin left) inner (longestTextAll nodes))) nodes u m v) :
    Part a false true ⟨inner, left, longestTextAll nodes, m, v⟩

/-- **Induction over parts.** What holds of an activity whenever it holds of its parts holds of every
activity. -/
theorem induction_parts {C : Activity → Prop}
    (step : ∀ a, (∀ here statement b, Part a here statement b → C b) → C a) (a : Activity) : C a :=
  step a fun _ _ b _ => induction_parts step b
termination_by (a.documents, a.strings, sizeOf a.node)
decreasing_by
  -- The tree is left at the cost of a document or of a level of strings, and else the node gets smaller.
  rename_i part
  cases part with
  | operand runs => exact .right _ (.right _ (runs.sizeOf_lt rfl))
  | statement runs => exact .right _ (.right _ (runs.sizeOf_lt rfl))
  | spliced room =>
    refine .right _ (.left _ _ ?_)
    rw [room]
    exact Nat.lt_succ_self _
  | included room =>
    refine .left _ _ ?_
    rw [room]
    exact Nat.lt_succ_self _

section

variable {P : {α : Type} → Eval α → State → Prop} (hP : Inherited P) {a : Activity} {t : State}

include hP

/-- An expression found in a string is evaluated one string deeper, if there is room. -/
theorem inherited_splice {m : Node}
    (h : ∀ depth, a.strings = depth + 1 →
      P (m.evalWith a.src (hooks { a with strings := depth })) t) :
    P (a.hooks.splice m) t := by
  unfold hooks
  cases room : a.strings with
  | zero => exact hP.fail rfl t
  | succ depth => exact hP.lastOperand (h depth room)

/-- A document is included with one document less that may be opened, if there is room. -/
theorem inherited_inclusion {target : String}
    (h : ∀ left, a.documents = left + 1 → P (includeWith (Source.runWithin left) a.src target) t) :
    P (a.hooks.inclusion target) t := by
  unfold hooks
  rw [Hooks.inclusion_atDepth]
  cases room : a.documents with
  | zero => exact hP.fail rfl t
  | succ left =>
    rw [Source.includeWithin_succ]
    exact h left room

end

/-- An activity within another: a part of a part, and so on, the activity itself included. -/
abbrev Within : Activity → Activity → Prop :=
  Relation.ReflTransGen fun a b => ∃ here statement, Part a here statement b

/-- The evaluation of a node as a whole. -/
def whole (src : Source) (n : Node) (s : State) : Activity :=
  ⟨src, s.world.reach + 1, n.longestText, n, s⟩

theorem ending_whole (src : Source) (n : Node) (s : State) :
    (whole src n s).ending = n.eval src s :=
  rfl

/-- A statement of a document that is run in a state. -/
inductive OfDocument (src : Source) (nodes : List Node) (s : State) : Activity → Prop
  | intro {m : Node} {t : State}
    (turn : InTurn (Finishes src (src.hooks s.world (longestTextAll nodes))) nodes s m t) :
    OfDocument src nodes s ⟨src, s.world.reach + 1, longestTextAll nodes, m, t⟩

end Activity

end BlockConfig
