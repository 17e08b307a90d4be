import BlockConfig.Proofs.Inclusion.Steps

/-!
Inclusions do all or nothing.

A document runs in a scope of its own, so whatever it does before it fails is lost with that scope, and
its caller takes over its variables only at the end. What is to be shown is that this is all: that the
caller's scope is what it was if the inclusion fails, and else has the variables on top
(`Eval.scope_includeWith`); and that the cache keeps what it had for the document, although other
documents may have come into it by then (`Eval.cache_includeWith`).

That the variables are *on top* of the caller's takes one more thing. A table is put on top of another
one entry after another, so of two entries with one key the later would win, and looking a key up finds
the earlier. There are no two: the variables of a document are the table of a scope that began empty,
and a table that is only ever written to stays in order (`Eval.pervasive_orderly`).
-/

set_option autoImplicit false

namespace BlockConfig

/-! ## 1. Tables on top of each other -/

namespace Table

variable {α : Type}

theorem isSorted_union {t : Table α} (h : t.IsSorted) (u : Table α) : (union t u).IsSorted := by
  unfold union
  induction u generalizing t with
  | nil => exact h
  | cons entry u ih => exact ih (isSorted_insert h entry.1 entry.2)

theorem find?_eq_none_of_not_mem {t : Table α} {k : String} (h : k ∉ keys t) : find? t k = none := by
  cases found : find? t k with
  | none => rfl
  | some v => exact absurd (mem_keys_of_find? found) h

/-- In a table on top of another there is what the upper one has, and else what the lower one has. -/
theorem find?_union {t u : Table α} (h : u.IsSorted) (k : String) :
    find? (union t u) k = (find? u k).or (find? t k) := by
  unfold union
  induction u generalizing t with
  | nil => rfl
  | cons entry u ih =>
    -- The entries after the first one have other keys, so none of them hides it.
    obtain ⟨first, rest⟩ := List.pairwise_cons.1 h
    rw [List.foldl_cons, ih rest, find?_insert, find?]
    by_cases same : k = entry.1
    · have absent : k ∉ keys u := fun hk => String.lt_irrefl _ (same ▸ first k hk)
      rw [if_pos same, if_pos same, find?_eq_none_of_not_mem absent]
      rfl
    · rw [if_neg same, if_neg same]

end Table

namespace Eval

variable {α β : Type}

/-! ## 2. The variables of a document -/

/-- An evaluation that leaves the own table of its scope in order. -/
def Orderly (x : Eval α) : Prop :=
  ∀ s : State, s.scope.own.IsSorted → (x s).2.scope.own.IsSorted

theorem Orderly.of_scope_eq {x : Eval α} (h : ∀ s, (x s).2.scope = s.scope) : Orderly x := by
  intro s sorted
  rw [h s]
  exact sorted

theorem Orderly.bind {x : Eval α} {f : α → Eval β} (h : Orderly x) (hf : ∀ a, Orderly (f a)) :
    Orderly (x >>= f) := by
  intro s sorted
  have := h s sorted
  rw [bind_apply]
  generalize x s = ending at this
  rcases ending with ⟨fault | a, s'⟩
  · exact this
  · exact hf a s' this

/-- **Keeping the table in order is kept by everything.** The only thing that changes the table of a scope
is setting a name, and that puts it in its place. -/
theorem pervasive_orderly : Pervasive Orderly where
  congruence :=
    { pure _ := .of_scope_eq fun _ => rfl
      bind := Orderly.bind
      fail _ := .of_scope_eq fun _ => rfl
      own h := Orderly.bind (.of_scope_eq fun _ => rfl) fun a => h a a rfl
      host h := Orderly.bind (.of_scope_eq fun _ => rfl) fun w => h w.host
      set name v _ sorted := Table.isSorted_insert sorted name v
      attempt h s sorted := by
        rw [state_attempt]
        exact h s sorted
      locating file pos _ _ h s sorted := by
        rw [state_locating]
        exact h s sorted
      inChild _ := .of_scope_eq fun s => scope_within _ _ s
      aside _ := .of_scope_eq fun _ => rfl }
  world := .of_scope_eq fun _ => rfl
  named _ := .of_scope_eq fun _ => rfl
  called f values := .of_scope_eq fun s => by rw [state_call]
  commanded src c := .of_scope_eq fun s => by rw [runCommand_apply, State.noting_scope]

/-- The variables of a document are in order: they are the table of a scope that began empty. -/
theorem sorted_of_within {act : Eval Unit} (h : Orderly act) {other : Scope → Scope} {s s' : State}
    {vars : Table Value} (ran : within other act s = (.ok vars, s'))
    (empty : (other s.scope).own = []) : vars.IsSorted := by
  have sorted := h { s with scope := other s.scope } (by rw [empty]; exact .nil)
  unfold within at ran
  generalize act { s with scope := other s.scope } = ending at ran sorted
  rcases ending with ⟨fault | _, left⟩
  · cases ran
  · cases ran
    exact sorted

/-! ## 3. The scope and the cache after an inclusion -/

variable {run : Source → List Node → Eval Unit}

/-- **An inclusion leaves the scope as it was, or puts the variables of the document on top.** The document
is run in a scope of its own, so nothing that it does comes out of it if it fails. -/
theorem scope_includeWith (hrun : ∀ inner nodes, Orderly (run inner nodes)) (src : Source)
    (target : String) (s : State) :
    (∀ fault, (includeWith run src target s).1 = .error fault →
      (includeWith run src target s).2.scope = s.scope) ∧
    ∀ v, (includeWith run src target s).1 = .ok v → ∃ vars : Table Value, v = .map vars ∧
      vars.IsSorted ∧ (includeWith run src target s).2.scope = s.scope.extend vars := by
  have h := included run src target s
  generalize (includeWith run src target s).1 = r at h
  generalize (includeWith run src target s).2 = s' at h
  have same {other : Scope → Scope} {act : Eval Unit} {s s' : State}
      {r : Except Fault (Table Value)} (h : within other act s = (r, s')) : s'.scope = s.scope := by
    rw [← scope_within other act s, h]
  cases h with
  | lost | circular | unfetched | unread => exact ⟨fun _ _ => rfl, nofun⟩
  | againFailed found closed cached ran => exact ⟨fun _ _ => same ran, nofun⟩
  | anewFailed found closed missing fetched read ran =>
    exact ⟨fun _ _ => by rw [same ran, State.noting_scope], nofun⟩
  | @again _ _ vars s' found closed cached ran =>
    refine ⟨nofun, fun v hv => ⟨vars, (Except.ok.inj hv).symm, ?_, ?_⟩⟩
    · exact sorted_of_within (hrun _ _) ran rfl
    · rw [State.taking_scope, same ran]
  | @anew _ _ _ vars s' found closed missing fetched read ran =>
    refine ⟨nofun, fun v hv => ⟨vars, (Except.ok.inj hv).symm, ?_, ?_⟩⟩
    · exact sorted_of_within (hrun _ _) ran rfl
    · rw [State.taking_scope, State.keeping_scope, same ran, State.noting_scope]

/-- **An inclusion that fails leaves the cache as it was for its document.** While the document is run it is
open, and what is open is not put into the cache. -/
theorem cache_includeWith (hrun : ∀ inner nodes, Proceeds inner.opened (run inner nodes))
    {src : Source} {target : String} {s : State} {fault : Fault}
    (failed : (includeWith run src target s).1 = .error fault) {place : Location}
    (hplace : src.find s.world.host target = .ok place) :
    Table.find? (includeWith run src target s).2.world.cache place.key =
      Table.find? s.world.cache place.key := by
  have h := included run src target s
  generalize (includeWith run src target s).1 = r at h failed
  generalize (includeWith run src target s).2 = s' at h
  have isOpen : place.key ∈ (src.nested place.key place.key).opened :=
    List.mem_append_right _ (List.mem_singleton_self _)
  cases h with
  | lost | circular | unfetched | unread => rfl
  | again | anew => cases failed
  | @againFailed place' nodes _ _ found closed cached ran =>
    obtain rfl : place' = place := Except.ok.inj (found.symm.trans hplace)
    obtain ⟨since', path⟩ := (hrun (src.nested place'.key place'.key) nodes).within Scope.child s []
    rw [show within Scope.child _ s = _ from ran] at path
    exact path.untouched isOpen
  | @anewFailed place' text nodes _ _ found closed missing fetched read ran =>
    obtain rfl : place' = place := Except.ok.inj (found.symm.trans hplace)
    obtain ⟨since', -, still, -⟩ := path_of_anew (hrun (src.nested place'.key place'.key) nodes) []
      (Source.ofKey_of_find found) closed missing fetched
    rw [ran] at still
    rw [still, missing]

/-! ## 4. Inclusions do all or nothing -/

/-- What an inclusion may have done in the end: nothing to the scope and to the entry of its document
if it failed, and else to the scope that the variables which it gives are on top. -/
structure AllOrNothing (src : Source) (target : String) (s : State)
    (ending : Except Fault Value × State) : Prop where
  scope_of_failed : ∀ fault, ending.1 = .error fault → ending.2.scope = s.scope
  cache_of_failed : ∀ fault, ending.1 = .error fault → ∀ place,
    src.find s.world.host target = .ok place →
      Table.find? ending.2.world.cache place.key = Table.find? s.world.cache place.key
  succeeded : ∀ v, ending.1 = .ok v → ∃ vars, v = .map vars ∧
    ending.2.scope = s.scope.extend vars ∧ ending.2.scope.outer = s.scope.outer ∧
    ∀ name, ending.2.scope.findOwn? name = (Table.find? vars name).or (s.scope.findOwn? name)

/-- An inclusion takes its variables from the table of a scope, so they come in order; the induction is on
the depth of inclusions. -/
theorem orderly_includeWithin (n : Nat) (src : Source) (target : String) :
    Orderly (src.includeWithin n target) := by
  induction n generalizing src target with
  | zero => exact .of_scope_eq fun _ => rfl
  | succ n ih =>
    intro s sorted
    have hrun (inner : Source) (nodes : List Node) : Orderly (evalStatements inner
        (Hooks.atDepth (Source.includeWithin n inner) inner (longestTextAll nodes)) nodes) :=
      pervasive_orderly.evalStatements_atDepth (ih inner) _ nodes
    obtain ⟨failed, succeeded⟩ := scope_includeWith hrun src target s
    rw [Source.includeWithin]
    cases hr : (includeWith _ src target s).1 with
    | error fault =>
      rw [failed fault hr]
      exact sorted
    | ok v =>
      obtain ⟨vars, -, -, hscope⟩ := succeeded v hr
      rw [hscope]
      exact Table.isSorted_union sorted vars

/-- An inclusion of any depth is all or nothing. What it does to the scope and what it does to the cache are
looked at separately; for both it is enough that the documents inside leave their own tables in order. -/
theorem allOrNothing_includeWithin (n : Nat) (src : Source) (target : String) (s : State) :
    AllOrNothing src target s (src.includeWithin n target s) := by
  cases n with
  | zero => exact ⟨fun _ _ => rfl, fun _ _ _ _ => rfl, nofun⟩
  | succ n =>
    rw [Source.includeWithin]
    have orderly (inner : Source) (nodes : List Node) : Orderly (evalStatements inner
        (Hooks.atDepth (Source.includeWithin n inner) inner (longestTextAll nodes)) nodes) :=
      pervasive_orderly.evalStatements_atDepth (orderly_includeWithin n inner) _ nodes
    have proceeds (inner : Source) (nodes : List Node) : Proceeds inner.opened (evalStatements inner
        (Hooks.atDepth (Source.includeWithin n inner) inner (longestTextAll nodes)) nodes) :=
      (pervasive_proceeds inner.opened).evalStatements_atDepth (proceeds_includeWithin n inner) _ nodes
    obtain ⟨failed, succeeded⟩ := scope_includeWith orderly src target s
    refine ⟨failed, fun fault h place hplace => cache_includeWith proceeds h hplace, fun v hv => ?_⟩
    obtain ⟨vars, rfl, sorted, hscope⟩ := succeeded v hv
    refine ⟨vars, rfl, hscope, by rw [hscope]; rfl, fun name => ?_⟩
    rw [hscope]
    exact Table.find?_union sorted name

/-- Where an inclusion stands makes no difference: once its target has been evaluated, the document is
included in the state that this has left. -/
theorem evalWith_inclusion {src : Source} {inclusion : String → Eval Value} {depth : Nat}
    {target : Node} {s s' : State} {v : Value} {text : String}
    (evaluated : target.evalWith src (Hooks.atDepth inclusion src depth) s = (.ok v, s'))
    (isText : v.unwrapCall target = .ok (.str text)) (pos : Position) :
    (Node.inclusion target pos).evalWith src (Hooks.atDepth inclusion src depth) s =
      inclusion text s' := by
  rw [Node.evalWith, bind_apply, evaluated]
  dsimp only
  rw [bind_apply, isText, ofExcept_apply]
  show (Hooks.atDepth inclusion src depth).inclusion text s' = inclusion text s'
  rw [Hooks.inclusion_atDepth]

/-- **An inclusion does all or nothing,** wherever it stands, once its target has been evaluated. What comes
of it is then what comes of including the text that the target has given. -/
theorem inclusion_allOrNothing {src : Source} {n depth : Nat} {target : Node} {s s' : State}
    {v : Value} {text : String}
    (evaluated : target.evalWith src (Hooks.atDepth (src.includeWithin n) src depth) s = (.ok v, s'))
    (isText : v.unwrapCall target = .ok (.str text)) (pos : Position) :
    AllOrNothing src text s' ((Node.inclusion target pos).evalWith src
      (Hooks.atDepth (src.includeWithin n) src depth) s) := by
  rw [evalWith_inclusion evaluated isText]
  exact allOrNothing_includeWithin n src text s'

/-- A document that is evaluated with a remote one in the cache, which is asked for by the name `t`
and assigns to `a`. -/
def callerOfCached : Source :=
  ⟨⟨.default, [], fun _ _ => .error "no commands"⟩, "<input>", "/", []⟩

@[inherit_doc callerOfCached]
def stateOfCached : State :=
  ⟨.root [("a", .int 0), ("t", .str "http://x/d")],
    ⟨⟨⟨[], []⟩, "/", [], []⟩, .fresh,
      [("http://x/d", [.assign ⟨"a", ⟨1, 1⟩⟩ (.literal (.int 1)) .equals])], []⟩⟩

theorem inclusion_allOrNothing_cached :
    let hooks := Hooks.atDepth (callerOfCached.includeWithin 1) callerOfCached 0
    let ending := (Node.inclusion (.ident "t") ⟨1, 1⟩).evalWith callerOfCached hooks stateOfCached
    (Node.ident "t").evalWith callerOfCached hooks stateOfCached =
        (.ok (.str "http://x/d"), stateOfCached) ∧
      ending.1 = .ok (.map [("a", .int 1)]) ∧
      ending.2.scope.own = [("a", .int 1), ("t", .str "http://x/d")] ∧
      AllOrNothing callerOfCached "http://x/d" stateOfCached ending :=
  ⟨rfl, rfl, rfl, inclusion_allOrNothing rfl rfl ⟨1, 1⟩⟩

end Eval

end BlockConfig
