import BlockConfig.Proofs.Grammar.Canonical
import BlockConfig.Proofs.Lexing.Rendering

/-!
Expressions are read back from their text.

The two halves meet here. The printer's half says that the text of a tree is cut into tokens that
spell it (`Node.Printable.writes`), the reader's half that tokens which spell a tree are read as that
tree (`Node.reads_loneExpression`). For a canonical expression both apply: its operators need no
parentheses but those that are nodes, so it has the shape that the grammar asks for, and of its
texts it is asked that they can be written (`Node.WritableHere`). Only the positions of calls differ.
-/

set_option autoImplicit false

namespace BlockConfig

/-- A text is read with a rule if the rule reads its tokens. -/
theorem Rule.readText_eq {α : Type} {rule : Nat → Rule α} {source : String} {ts : List Token}
    {result : α} {c : Cursor} (hts : Token.list source.toList = .ok ts)
    (h : (rule (budget ts)).Gives ⟨0, ts⟩ result c) (file : String) :
    Rule.readText rule source file = .ok result :=
  readText_ok_iff.2 ⟨ts, c, hts, h⟩

namespace Node

/-- A canonical expression whose texts can be written can be written. -/
theorem Canonical.printable {n : Node} (h : n.Canonical) (hw : Everywhere WritableHere n) :
    n.Printable :=
  h.readable.fits.and hw

/-- **A canonical expression is read back from its text,** whatever the level of nesting it is
written at. -/
theorem parseExpression_render {n : Node} (hc : n.Canonical) (hw : Everywhere WritableHere n)
    (level : Nat) (file : String) :
    ∃ n', parseExpression (n.render level) file = .ok n' ∧ n'.unplaced = n.unplaced := by
  have hwrites := ((hc.printable hw).writes.1 hc.isValue).writes
  obtain ⟨ts, hs, hcut⟩ := hwrites level .start
  obtain ⟨last, hts⟩ := hcut.list loose_nil
  have hlength : (ts ++ [Token.endOfInput last]).length = ts.length + 1 := by
    rw [List.length_append]
    rfl
  have hbudget : 10 * ts.length + 9 ≤ Rule.budget (ts ++ [Token.endOfInput last]) := by
    rw [Rule.budget, hlength]
    omega
  obtain ⟨n', hn', hg⟩ := reads_loneExpression hc.isValue hc.readable 0 (.endOfInput last) hs rfl
    hbudget
  exact ⟨n', Rule.readText_eq hts hg file, hn'⟩

/-- A sum with a heredoc in the middle: `- -a + f(<<END … END, '${a "b"}'."size of")`. -/
def sampleSum : Node :=
  .binary .add (.unary .neg (.unary .neg (.ident "a")))
    (.call "f" [.literal (.str "1\n2" '"' (some "END")),
      .member (.literal (.str "$\x7ba \"b\"\x7d" '\'' none)) "size of"] .start)

/-- A sum with a double negation, and with a heredoc and a member with a quoted name for arguments. -/
theorem parseExpression_render_sampleSum :
    (sampleSum.Canonical ∧ Everywhere WritableHere sampleSum) ∧
      ∃ n', parseExpression (sampleSum.render 2) "sample" = .ok n' ∧
        n'.unplaced = sampleSum.unplaced := by
  have leaf : ∀ {p : Node → Prop} {n : Node}, p n → n.children = [] → Everywhere p n :=
    fun h hn => .intro h (by simp [hn])
  have pair : ∀ {p : Node → Prop} {m n : Node}, Everywhere p m → Everywhere p n →
      ∀ k ∈ [m, n], Everywhere p k := by
    intro p m n hm hn
    exact List.forall_mem_cons.2 ⟨hm, List.forall_mem_singleton.2 hn⟩
  have hc : sampleSum.Canonical := by
    refine .intro ⟨⟨rfl, rfl⟩, nofun, nofun⟩ (pair ?_ ?_)
    · refine .intro (.inl rfl) (List.forall_mem_singleton.2 ?_)
      exact .intro (.inr (.inr rfl)) (List.forall_mem_singleton.2 (leaf trivial rfl))
    · refine .intro trivial (pair (leaf trivial rfl) ?_)
      exact .intro (.inr rfl) (List.forall_mem_singleton.2 (leaf trivial rfl))
  have hw : Everywhere WritableHere sampleSum := by
    refine .intro trivial (pair ?_ ?_)
    · refine .intro trivial (List.forall_mem_singleton.2 ?_)
      exact .intro trivial (List.forall_mem_singleton.2 (leaf rfl rfl))
    · have fits : Lexeme.FitsHeredoc "END".toList "1\n2".toList := by
        refine ⟨by decide, fun c hc => ?_⟩
        obtain rfl := Option.some.inj hc
        decide
      have letters : ∀ c ∈ ['N', 'D'], Lexeme.isNameRest c = true := List.all_eq_true.1 rfl
      refine .intro rfl (pair (leaf ⟨rfl, fits, 'E', ['N', 'D'], rfl, rfl, letters⟩ rfl) ?_)
      exact .intro rfl (List.forall_mem_singleton.2 (leaf ⟨rfl, rfl⟩ rfl))
  exact ⟨⟨hc, hw⟩, parseExpression_render hc hw 2 "sample"⟩

end Node

end BlockConfig
