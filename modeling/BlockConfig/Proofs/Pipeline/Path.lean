import BlockConfig.Eval.Order
import Mathlib.Data.List.Chain
import Mathlib.Data.List.Nodup

/-!
The path on which arrows lead a pipeline.

`Pipeline.follow` goes on for at most as many rounds as there are arrows. `Walk` is the same loop
with no such bound: a derivation of it is a run that ends because no arrow leads on. Each round
passes a step that some arrow leads to and that was not passed before, so the number of arrows to
steps not passed yet falls from round to round, and the bound is never what ends the loop
(`walk_follow`). All that is said about the order is then an induction over a walk: what one round
preserves is in the rule `Walk.go`, where the loop ends is in `Walk.stop`.

A walk is determined by where it begins. So to know the order for arrows that are the links of one
path, mixed up in any way, it is enough to see that the path itself is a walk.
-/

set_option autoImplicit false

namespace BlockConfig.Pipeline

variable {steps : List String} {arrows : List (String × String)} {passed : List String}
  {here there first : String}

/-! ## 1. The loop without a bound -/

/-- The loop ends by itself where all arrows lead to steps that it has passed. -/
theorem next?_eq_none : next? arrows passed here = none ↔
    ∀ next, (here, next) ∈ arrows → next ∈ passed := by
  simp only [next?, Option.map_eq_none_iff, List.find?_eq_none, decide_eq_true_eq, not_and,
    not_not, Prod.forall]
  constructor
  · exact fun h next mem => h here next mem rfl
  · rintro h _ next mem rfl
    exact h next mem

/-- It goes on along an arrow to a step that it has not passed. -/
theorem next?_eq_some (h : next? arrows passed here = some there) :
    (here, there) ∈ arrows ∧ there ∉ passed := by
  obtain ⟨⟨source, target⟩, found, rfl⟩ := Option.map_eq_some_iff.mp h
  have held := List.find?_some found
  have ⟨from_here, fresh⟩ := of_decide_eq_true held
  exact ⟨from_here ▸ List.mem_of_find?_eq_some found, fresh⟩

/-- The rounds of the loop until it ends by itself: the steps after `here`, with `passed` the steps
up to it. -/
inductive Walk (arrows : List (String × String)) : List String → String → List String → Prop
  | stop {passed : List String} {here : String} :
      next? arrows passed here = none → Walk arrows passed here []
  | go {passed : List String} {here there : String} {path : List String} :
      next? arrows passed here = some there →
      Walk arrows (there :: passed) there path → Walk arrows passed here (there :: path)

/-- The number of arrows to steps that have not been passed. -/
def ahead (arrows : List (String × String)) (passed : List String) : Nat :=
  arrows.countP fun a => a.2 ∉ passed

/-- There are no more arrows ahead than arrows. -/
theorem ahead_le : ahead arrows passed ≤ arrows.length :=
  List.countP_le_length

/-- A round passes the target of an arrow that was still ahead. -/
theorem ahead_lt (h : next? arrows passed here = some there) :
    ahead arrows (there :: passed) < ahead arrows passed := by
  have ⟨mem, fresh⟩ := next?_eq_some h
  obtain ⟨before, after, rfl⟩ := List.append_of_mem mem
  have le (as : List (String × String)) : ahead as (there :: passed) ≤ ahead as passed := by
    refine List.countP_mono_left fun a _ ahead => ?_
    simp_all
  have := le before
  have := le after
  simp only [ahead, List.countP_append, List.countP_cons] at *
  rw [if_neg (by simp), if_pos (by simpa using fresh)]
  omega

/-- With as many rounds as there are arrows ahead the loop ends by itself. -/
theorem walk_follow {n : Nat} (h : ahead arrows passed ≤ n) :
    Walk arrows passed here (follow arrows n passed here) := by
  induction n generalizing passed here with
  | zero =>
    refine .stop (Option.eq_none_iff_forall_ne_some.mpr fun there found => ?_)
    have := ahead_lt found
    omega
  | succ n ih =>
    cases found : next? arrows passed here with
    | none => simpa only [follow, found] using Walk.stop found
    | some there =>
      have := ahead_lt found
      simpa only [follow, found] using Walk.go found (ih (by omega))

/-- Where a walk begins determines it. -/
theorem Walk.eq {path path' : List String} (h : Walk arrows passed here path)
    (h' : Walk arrows passed here path') : path = path' := by
  induction h generalizing path' with
  | stop found => cases h' with
    | stop _ => rfl
    | go found' _ => simp [found] at found'
  | go found _ ih => cases h' with
    | stop found' => simp [found] at found'
    | go found' walk' =>
      obtain rfl := Option.some.inj (found.symm.trans found')
      rw [ih walk']

/-! ## 2. What a walk passes -/

/-- A walk follows the arrows. -/
theorem Walk.chain {path : List String} (h : Walk arrows passed here path) :
    (here :: path).IsChain fun a b => (a, b) ∈ arrows := by
  induction h with
  | stop _ => exact .singleton _
  | go found _ ih => exact .cons_cons (next?_eq_some found).1 ih

/-- It passes no step that was passed before, and none twice. -/
theorem Walk.fresh {path : List String} (h : Walk arrows passed here path) :
    path.Nodup ∧ ∀ step ∈ path, step ∉ passed := by
  induction h with
  | stop _ => simp
  | go found _ ih =>
    obtain ⟨nodup, fresh⟩ := ih
    have new := (next?_eq_some found).2
    simp only [List.mem_cons, not_or] at fresh
    refine ⟨List.nodup_cons.mpr ⟨fun mem => (fresh _ mem).1 rfl, nodup⟩, ?_⟩
    rintro step (_ | ⟨_, mem⟩)
    · exact new
    · exact (fresh step mem).2

/-- From its last step all arrows lead back, to what was passed before the walk or in it. -/
theorem Walk.final {path : List String} (h : Walk arrows passed here path)
    (last : String) (is_last : last ∈ (here :: path).getLast?) (next : String)
    (mem : (last, next) ∈ arrows) : next ∈ passed ∨ next ∈ path := by
  induction h with
  | stop found =>
    obtain rfl : _ = last := by simpa using is_last
    exact .inl (next?_eq_none.mp found next mem)
  | go _ _ ih =>
    have := ih (by simpa only [List.getLast?_cons_cons] using is_last)
    simp only [List.mem_cons] at this ⊢
    tauto

/-! ## 3. Where the path begins -/

/-- Whether no arrow leads to a step. -/
def Unreached (arrows : List (String × String)) (step : String) : Prop :=
  ∀ a ∈ arrows, a.2 ≠ step

/-- Whether arrows begin at a step: it is the source of the first arrow that comes from an unreached
step, or of the first arrow of all if none does. -/
def Begins (arrows : List (String × String)) (step : String) : Prop :=
  (∃ before target after, arrows = before ++ (step, target) :: after ∧ Unreached arrows step ∧
    ∀ a ∈ before, ¬ Unreached arrows a.1) ∨
  (∃ target after, arrows = (step, target) :: after ∧ ∀ a ∈ arrows, ¬ Unreached arrows a.1)

theorem not_any_iff {a : String × String} :
    (!arrows.any fun b => b.2 = a.1) = true ↔ Unreached arrows a.1 := by
  simp [Unreached]

/-- The step that is found first is one at which the arrows begin, whichever of the two rules has found
it. -/
theorem begins_of_start? (h : start? arrows = some first) : Begins arrows first := by
  unfold start? at h
  split at h
  · rename_i source found
    obtain rfl := Option.some.inj h
    obtain ⟨unreached, before, after, eq, reached⟩ := List.find?_eq_some_iff_append.mp found
    exact .inl ⟨before, source.2, after, eq, not_any_iff.mp unreached,
      fun a mem => not_any_iff.not.mp (by simpa using reached a mem)⟩
  · rename_i found
    cases arrows with
    | nil => simp at h
    | cons a after =>
      obtain rfl : a.1 = first := by simpa using h
      exact .inr ⟨a.2, after, rfl, fun b mem => not_any_iff.not.mp (List.find?_eq_none.mp found b mem)⟩

/-- If there are arrows, then one of their steps is the first. -/
theorem exists_start? (h : arrows ≠ []) : ∃ first, start? arrows = some first := by
  unfold start?
  split
  · exact ⟨_, rfl⟩
  · exact ⟨_, by rw [List.head?_eq_some_head h]; rfl⟩

/-! ## 4. The order -/

/-- An unknown step is found if some end of an arrow is none of the steps. -/
theorem unknownStep?_isSome : (unknownStep? steps arrows).isSome ↔
    ∃ a ∈ arrows, a.1 ∉ steps ∨ a.2 ∉ steps := by
  simp [unknownStep?, List.find?_isSome]

/-- Without unknown steps the order is the first step and what the loop follows from it. The number of
rounds is that of the arrows, which is always enough. -/
theorem order_eq (h : start? arrows = some first)
    (known : ¬ ∃ a ∈ arrows, a.1 ∉ steps ∨ a.2 ∉ steps) :
    order steps arrows = .ok (first :: follow arrows arrows.length [first] first) := by
  have : unknownStep? steps arrows = none := by
    simpa only [← unknownStep?_isSome, Option.not_isSome_iff_eq_none] using known
  simp only [order, h, this]

/-- Finding the order fails for unknown steps and for nothing else. -/
theorem order_error_iff (h : arrows ≠ []) : (∃ fault, order steps arrows = .error fault) ↔
    ∃ a ∈ arrows, a.1 ∉ steps ∨ a.2 ∉ steps := by
  obtain ⟨first, start⟩ := exists_start? h
  constructor
  · rintro ⟨fault, failed⟩
    by_contra known
    simp [order_eq start known] at failed
  · intro unknown
    obtain ⟨name, found⟩ := Option.isSome_iff_exists.mp (unknownStep?_isSome.mpr unknown)
    exact ⟨.unknownStep name, by simp only [order, start, found]⟩

/-- What an order along arrows is. -/
structure IsRoute (arrows : List (String × String)) (path : List String) : Prop where
  /-- The path is what the loop makes of its first step, however many rounds that takes. -/
  walk : ∃ first rest, path = first :: rest ∧ Begins arrows first ∧ Walk arrows [first] first rest
  /-- No step comes twice. -/
  nodup : path.Nodup
  /-- An arrow leads from each step to the next. -/
  chain : path.IsChain fun a b => (a, b) ∈ arrows
  /-- All arrows from the last step lead back to the path. -/
  final : ∀ last ∈ path.getLast?, ∀ next, (last, next) ∈ arrows → next ∈ path

/-- A walk from where the arrows begin is a route. -/
theorem Walk.isRoute {rest : List String} (begins : Begins arrows first)
    (walk : Walk arrows [first] first rest) : IsRoute arrows (first :: rest) where
  walk := ⟨first, rest, rfl, begins, walk⟩
  nodup := by
    have ⟨nodup, fresh⟩ := walk.fresh
    exact List.nodup_cons.mpr ⟨fun mem => fresh first mem (List.mem_singleton_self _), nodup⟩
  chain := walk.chain
  final last is_last next mem := by
    simpa only [List.mem_cons, List.not_mem_nil, or_false] using walk.final last is_last next mem

/-- The order that is found is a route along the arrows. -/
theorem isRoute_of_order {path : List String} (h : arrows ≠ [])
    (ok : order steps arrows = .ok path) : IsRoute arrows path := by
  obtain ⟨first, start⟩ := exists_start? h
  have known : ¬ ∃ a ∈ arrows, a.1 ∉ steps ∨ a.2 ∉ steps := fun unknown => by
    obtain ⟨fault, failed⟩ := (order_error_iff h).mpr unknown
    simp [ok] at failed
  rw [order_eq start known] at ok
  obtain rfl := Except.ok.inj ok
  exact (walk_follow ahead_le).isRoute (begins_of_start? start)

/-! ## 5. The arrows of one path -/

/-- The arrows from each step of a path to the next. -/
def links (path : List String) : List (String × String) :=
  path.zip path.tail

/-- A link is a pair of neighbours. -/
theorem mem_links {path : List String} {a b : String} :
    (a, b) ∈ links path ↔ ∃ before after, path = before ++ a :: b :: after := by
  induction path with
  | nil => simp [links]
  | cons x path ih =>
    rcases path with _ | ⟨y, path⟩
    · simp [links, List.cons_eq_append_iff]
    · have split : (a, b) ∈ links (x :: y :: path) ↔ (a = x ∧ b = y) ∨ (a, b) ∈ links (y :: path) := by
        simp [links]
      rw [split, ih]
      constructor
      · rintro (⟨rfl, rfl⟩ | ⟨before, after, eq⟩)
        · exact ⟨[], path, rfl⟩
        · exact ⟨x :: before, after, by rw [eq, List.cons_append]⟩
      · rintro ⟨before, after, eq⟩
        rcases before with _ | ⟨z, before⟩
        · simp_all
        · exact .inr ⟨before, after, by simpa using (List.cons.inj eq).2⟩

/-- Where a path passes no step twice, its arrows lead from a step to the one after it only. -/
theorem eq_of_mem_links {before after : List String} {a b : String}
    (nodup : (before ++ a :: after).Nodup) (mem : (a, b) ∈ links (before ++ a :: after)) :
    after.head? = some b := by
  obtain ⟨before', after', eq⟩ := mem_links.mp mem
  have once := (List.nodup_cons.mp (List.nodup_middle.mp nodup)).1
  rw [List.mem_append, not_or] at once
  obtain ⟨-, -, rfl⟩ := (List.append_cons_inj_of_notMem once.1 once.2).mp eq
  rfl

/-- No link of a simple path leads to its first step. -/
theorem not_mem_links_first {rest : List String} {a : String} (nodup : (first :: rest).Nodup) :
    (a, first) ∉ links (first :: rest) := by
  intro mem
  obtain ⟨before, after, eq⟩ := mem_links.mp mem
  refine (List.nodup_cons.mp nodup).1 ?_
  rcases before with _ | ⟨x, before⟩
  · simp [(List.cons.inj eq).2]
  · simp [(List.cons.inj eq).2]

/-- A step of a path that none of its arrows leads to is its first. -/
theorem eq_first_of_unreached {rest : List String} {a b : String}
    (mem : (a, b) ∈ links (first :: rest)) (unreached : Unreached (links (first :: rest)) a) :
    a = first := by
  obtain ⟨before, after, eq⟩ := mem_links.mp mem
  rcases List.eq_nil_or_concat before with rfl | ⟨before, x, rfl⟩
  · exact (List.cons.inj eq).1.symm
  · refine absurd rfl (unreached (x, a) (mem_links.mpr ⟨before, b :: after, ?_⟩))
    simpa using eq

/-- If the arrows are the links of a simple path, then they begin at the first step of that path: every
other step is reached by a link, and the first one by none. -/
theorem eq_first_of_begins {rest : List String} {step : String} (nodup : (first :: rest).Nodup)
    (same : ∀ a, a ∈ arrows ↔ a ∈ links (first :: rest)) (begins : Begins arrows step) :
    step = first := by
  have unreached_iff (name : String) :
      Unreached arrows name ↔ Unreached (links (first :: rest)) name := by
    simp only [Unreached, same]
  rcases begins with ⟨before, target, after, rfl, unreached, -⟩ | ⟨target, after, rfl, reached⟩
  · exact eq_first_of_unreached ((same (step, target)).mp (by simp)) ((unreached_iff _).mp unreached)
  · -- The first step of the path is unreached, and an arrow comes from it.
    rcases rest with _ | ⟨second, rest⟩
    · simpa [links] using (same (step, target)).mp (List.mem_cons_self ..)
    · refine absurd ((unreached_iff _).mpr ?_)
        (reached (first, second) ((same _).mpr (mem_links.mpr ⟨[], rest, rfl⟩)))
      rintro ⟨x, y⟩ mem rfl
      exact not_mem_links_first nodup mem

/-- Along the links of a simple path there is one walk, and it is the path. The induction is on the part of
the path that is still to come; `before` is what has been passed of it. -/
theorem walk_of_links (before : List String) {rest : List String}
    (nodup : (before ++ here :: rest).Nodup)
    (same : ∀ a, a ∈ arrows ↔ a ∈ links (before ++ here :: rest))
    (mem_passed : ∀ step, step ∈ passed ↔ step ∈ before ++ [here]) :
    Walk arrows passed here rest := by
  induction rest generalizing before here passed with
  | nil =>
    refine .stop (next?_eq_none.mpr fun next mem => ?_)
    simpa using eq_of_mem_links nodup ((same _).mp mem)
  | cons second rest ih =>
    have step : next? arrows passed here = some second := by
      cases found : next? arrows passed here with
      | none =>
        have arrow := (same (here, second)).mpr (mem_links.mpr ⟨before, rest, rfl⟩)
        have split : (before ++ [here] ++ second :: rest).Nodup := by simpa using nodup
        exact absurd (List.mem_cons_self ..)
          (List.disjoint_of_nodup_append split
            ((mem_passed _).mp (next?_eq_none.mp found second arrow)))
      | some there =>
        have := eq_of_mem_links nodup ((same _).mp (next?_eq_some found).1)
        simpa using this.symm
    refine .go step (ih (before ++ [here]) ?_ ?_ ?_)
    · simpa using nodup
    · simpa using same
    · intro name
      simp only [List.mem_cons, mem_passed, List.mem_append]
      tauto

/-- The links of a simple path are ordered as the path, in whichever order they are given. -/
theorem order_of_links {path : List String} (h : arrows ≠ []) (nodup : path.Nodup)
    (known : ∀ step ∈ path, step ∈ steps) (perm : arrows.Perm (links path)) :
    order steps arrows = .ok path := by
  obtain ⟨first, start⟩ := exists_start? h
  have same (a : String × String) : a ∈ arrows ↔ a ∈ links path := perm.mem_iff
  have none_unknown : ¬ ∃ a ∈ arrows, a.1 ∉ steps ∨ a.2 ∉ steps := by
    rintro ⟨⟨a, b⟩, mem, unknown⟩
    obtain ⟨before, after, rfl⟩ := mem_links.mp ((same _).mp mem)
    rcases unknown with unknown | unknown
    · exact unknown (known a (by simp))
    · exact unknown (known b (by simp))
  rcases path with _ | ⟨v, rest⟩
  · exact absurd perm.eq_nil h
  · obtain rfl := eq_first_of_begins nodup same (begins_of_start? start)
    rw [order_eq start none_unknown,
      (walk_follow ahead_le).eq (walk_of_links [] nodup same (by simp))]

/-! ## 6. The path derived from arrows -/

/-- **Arrows lead a pipeline along one path.** Whatever the steps and the arrows are, cycles,
branches and arrows given twice included, the order fails if and only if an arrow names an unknown
step, and is a route otherwise: the loop ends by itself. And if the arrows are those of one path
without repetition, the order is this path, whichever way the arrows are mixed up. -/
theorem order_along_arrows (steps : List String) (arrows : List (String × String))
    (some_arrow : arrows ≠ []) :
    ((∃ fault, order steps arrows = .error fault) ↔ ∃ a ∈ arrows, a.1 ∉ steps ∨ a.2 ∉ steps) ∧
    (∀ path, order steps arrows = .ok path → IsRoute arrows path) ∧
    (∀ path : List String, path.Nodup → (∀ step ∈ path, step ∈ steps) →
      arrows.Perm (links path) → order steps arrows = .ok path) :=
  ⟨order_error_iff some_arrow, fun _ => isRoute_of_order some_arrow,
    fun _ nodup known => order_of_links some_arrow nodup known⟩

/-- The two arrows of a path of three steps, the second one first. -/
theorem order_along_two_arrows :
    [("b", "c"), ("a", "b")] ≠ [] ∧
    order ["c", "b", "a"] [("b", "c"), ("a", "b")] = .ok ["a", "b", "c"] ∧
    IsRoute [("b", "c"), ("a", "b")] ["a", "b", "c"] := by
  have some_arrow : [("b", "c"), ("a", "b")] ≠ [] := by decide
  obtain ⟨-, route, linked⟩ := order_along_arrows ["c", "b", "a"] _ some_arrow
  have ok := linked ["a", "b", "c"] (by decide) (by decide) (List.Perm.swap ..)
  exact ⟨some_arrow, ok, route _ ok⟩

-- Around a cycle the first arrow begins, and what a branch leads to is left out.
example : order ["a", "b", "c"] [("b", "a"), ("a", "b"), ("b", "c")] = .ok ["b", "a"] := rfl

end BlockConfig.Pipeline
