import BlockConfig.Eval.Interpolation
import BlockConfig.Proofs.Grammar.Shape
import BlockConfig.Proofs.Lexing.Lawful

/-!
What was read has the shape of the grammar.

The rules of the grammar give shaped trees if the tokens that they read are in order. The tokens of a text
are, so what a text is read as is shaped, a document as well as an expression, be it one of its own or one
in a string.
-/

set_option autoImplicit false

namespace BlockConfig

namespace Node

/-- What was read as a document has the shape of the grammar, and its texts were tokens. -/
theorem shaped_of_parse {source file : String} {ns : List Node} (h : parse source file = .ok ns) :
    (∀ n ∈ ns, n.Shaped Token.Lawful) ∧ ∀ n ∈ ns, n.isStatement = true := by
  unfold parse Rule.readText Token.tokenize Token.list at h
  cases hts : Token.listFrom .start source.toList with
  | error fault =>
    rw [hts] at h
    cases h
  | ok ts =>
    rw [hts] at h
    dsimp only [Except.mapError, bind, Except.bind] at h
    have hholds : (Cursor.ofTokens ts).Holds Token.Lawful := Token.lawful_of_listFrom hts
    split at h
    next result c hrun =>
      cases h
      obtain ⟨-, hshaped, hkind⟩ := Rule.shaped_of_document _ hholds hrun
      exact ⟨hshaped, hkind⟩
    next => cases h

/-- What was read as an expression has the shape of the grammar and is a value. -/
theorem shaped_of_parseExpression {text file : String} {n : Node}
    (h : parseExpression text file = .ok n) : n.Shaped Token.Lawful ∧ n.isValue = true := by
  obtain ⟨ts, c, tokens, gives⟩ := Rule.readText_ok_iff.1 h
  have holds : Cursor.Holds Token.Lawful (.ofTokens ts) := Token.lawful_of_listFrom tokens
  obtain ⟨e, read, -⟩ := (Rule.gives_loneExpression _ _ _ _).1 gives
  obtain ⟨-, shaped, value, -⟩ := (Rule.sound _).expression holds read
  exact ⟨shaped, value⟩

end Node

namespace Hole

variable {inner : List Char} {file : String} {m : Node}

/-- An expression in a hole is read from what is in it. -/
theorem parseExpression_of_read (h : read inner file = .expression m) :
    Node.parseExpression (String.ofList inner) file = .ok m := by
  unfold read at h
  split at h
  · cases h
  split at h
  · cases h
  split at h
  next read =>
    cases h
    exact read
  next =>
    split at h
    · split at h <;> cases h
    · cases h

/-- What was found in a string is a value of the grammar. -/
theorem fits_of_read (h : read inner file = .expression m) :
    m.Everywhere Node.FitsHere ∧ m.isValue = true := by
  obtain ⟨shaped, value⟩ := Node.shaped_of_parseExpression (parseExpression_of_read h)
  exact ⟨shaped.mono fun _ h => h.1, value⟩

end Hole

end BlockConfig
