import BlockConfig.Eval.Inclusion
import BlockConfig.Proofs.Eval.Congruence

/-!
Properties that all evaluations have.

A property of single evaluations is a relation that looks at its first side only, so what is kept by
everything evaluation is put together from holds of the evaluations of all trees. Four things lead out
of a tree: names, calls, commands, and expressions found in strings. The first three are asked for once
(`Pervasive`), and the expressions follow by the depth of the strings. What is left to say of a property
is then what an inclusion does to it, and with that it holds of every node and of every list of
statements (`Pervasive.evalWith_atDepth`, `Pervasive.evalStatements_atDepth`).
-/

set_option autoImplicit false

namespace BlockConfig

/-- Inclusions do not depend on how deep in strings they are. -/
@[simp] theorem Hooks.inclusion_atDepth (inclusion : String → Eval Value) (src : Source)
    (depth : Nat) : (Hooks.atDepth inclusion src depth).inclusion = inclusion := by
  cases depth <;> rfl

namespace Eval

/-- A property of evaluations that is kept by everything, inclusions and strings left aside. -/
structure Pervasive (P : {α : Type} → Eval α → Prop) : Prop where
  congruence : Congruence fun x _ => P x
  world : P world
  named (name : String) : P (scope >>= fun s => Pure.pure (s.lookup name))
  called (f : Callable) (values : List Value) : P (call f values)
  commanded (src : Source) (c : Command) : P (runCommand src c)

namespace Pervasive

variable {P : {α : Type} → Eval α → Prop} (hP : Pervasive P) {src : Source} {hooks : Hooks}
  {inclusion : String → Eval Value}

include hP

theorem bind {α β : Type} {x : Eval α} {f : α → Eval β} (h : P x) (hf : ∀ a, P (f a)) :
    P (x >>= f) :=
  hP.congruence.bind (y := x) (g := f) h hf

theorem map {α β : Type} {x : Eval α} (h : P x) (f : α → β) : P (x >>= fun a => Pure.pure (f a)) :=
  hP.bind h fun a => hP.congruence.pure (f a)

theorem fillHole (spliced : ∀ m, P (hooks.splice m)) (inner : List Char) :
    P (fillHole src hooks inner) :=
  @Congruence.fillHole _ hP.congruence src src hooks hooks ⟨rfl, rfl, rfl⟩ inner fun m _ => spliced m

/-- A property of single evaluations agrees at each node if it holds where evaluation leaves the tree. -/
theorem agreesHere (spliced : ∀ m, P (hooks.splice m))
    (included : ∀ target, P (hooks.inclusion target)) (n : Node) :
    n.Everywhere (AgreesHere (fun x _ => P x) src src hooks hooks) := by
  induction n using Node.induction_children with
  | step n ih =>
    refine .intro ⟨fun name _ => hP.named name, fun m _ => spliced m, ?_, ?_, ?_⟩ ih
    · intro name args pos _ values
      exact hP.bind (hP.congruence.ofExcept _) fun f => hP.called f values
    · exact fun _ _ _ => included
    · exact fun _ _ _ _ _ c => hP.commanded src c

theorem evalWith (spliced : ∀ m, P (hooks.splice m))
    (included : ∀ target, P (hooks.inclusion target)) (n : Node) : P (n.evalWith src hooks) :=
  hP.congruence.evalWith ⟨rfl, rfl, rfl⟩ (hP.agreesHere spliced included n)

/-- Expressions found in strings have the property, however deep. -/
theorem splice_atDepth (included : ∀ target, P (inclusion target)) (depth : Nat) (m : Node) :
    P ((Hooks.atDepth inclusion src depth).splice m) := by
  induction depth generalizing m with
  | zero => exact hP.congruence.fail _
  | succ depth ih =>
    have hm : P (m.evalWith src (Hooks.atDepth inclusion src depth)) :=
      hP.evalWith ih (by simpa using included) m
    exact hP.bind hm fun v => hP.congruence.ofExcept (v.unwrapCall m)

/-- **A property that everything keeps is one of all nodes,** if inclusions have it. What is found in
strings has it too, at every depth, by induction on the depth. -/
theorem evalWith_atDepth (included : ∀ target, P (inclusion target)) (depth : Nat) (n : Node) :
    P (n.evalWith src (Hooks.atDepth inclusion src depth)) :=
  hP.evalWith (hP.splice_atDepth included depth) (by simpa using included) n

theorem evalStatements_atDepth (included : ∀ target, P (inclusion target)) (depth : Nat)
    (ns : List Node) : P (evalStatements src (Hooks.atDepth inclusion src depth) ns) := by
  have related : ∀ n ∈ ns, Related (fun x _ => P x) src src (Hooks.atDepth inclusion src depth)
      (Hooks.atDepth inclusion src depth) n := fun n _ => hP.evalWith_atDepth included depth n
  exact hP.congruence.evalStatements ⟨rfl, rfl, rfl⟩ related

end Pervasive

end Eval

end BlockConfig
