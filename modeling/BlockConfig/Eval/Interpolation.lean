import BlockConfig.Node.Parser

/-!
Strings with expressions in them.

A string is a sequence of pieces: text that stands for itself, and holes between `${` and the brace
that closes it. What is in a hole is read once, when its turn comes, and the text that takes its
place is not looked at again. A hole is read as a reference to the environment if it begins with
`env.`, else as an expression, and if it is none, as `NAME:default`.
-/

set_option autoImplicit false

namespace BlockConfig

/-- A piece of a string: text, the trimmed inside of a hole, or a hole that nothing closes. -/
inductive Piece where
  | text (cs : List Char)
  | hole (inner : List Char)
  | unclosed
deriving DecidableEq, Repr

namespace Piece

/-- The text up to the first `${`, and what follows it. -/
def beforeHole : List Char → List Char × Option (List Char)
  | [] => ([], none)
  | '$' :: '{' :: cs => ([], some cs)
  | c :: cs => let (front, rest) := beforeHole cs; (c :: front, rest)

/-- What stands behind the opening of a hole is shorter than the text, so splitting a text comes to an
end. -/
theorem length_beforeHole {cs front rest : List Char} (h : beforeHole cs = (front, some rest)) :
    rest.length < cs.length := by
  fun_induction beforeHole cs generalizing front rest with
  | case1 => simp at h
  | case2 =>
    simp only [Prod.mk.injEq, Option.some.injEq] at h
    obtain ⟨-, rfl⟩ := h
    simp only [List.length_cons]
    omega
  | case3 c cs _ front' rest' he ih =>
    simp only [Prod.mk.injEq] at h
    have := ih (by rw [he, h.2])
    simp only [List.length_cons]
    omega

/-- The pieces of a string. -/
def split (cs : List Char) : List Piece :=
  match _h : beforeHole cs with
  | (front, none) => [text front]
  | (front, some rest) =>
    match _h' : Lexeme.closeBraces 0 rest with
    | none => [text front, unclosed]
    | some (inner, rest) => text front :: hole (Text.trimChars inner) :: split rest
termination_by cs.length
decreasing_by
  have h1 := length_beforeHole _h
  have h2 := congrArg List.length (Lexeme.append_of_closeBraces _h')
  simp only [List.length_append, List.length_cons] at h2
  omega

end Piece

/-- What is in a hole. -/
inductive Hole where
  | empty
  /-- A variable of the environment, with the text to use if it is missing. -/
  | reference (name default : String)
  | expression (node : Node)
  | unreadable (reason : String)

namespace Hole

/-- Whether a text is a name as the environment has them: letters, digits and underscores. -/
def isVariableName (cs : List Char) : Bool :=
  !cs.isEmpty && cs.all Lexeme.isNameRest

/-- Reads the trimmed inside of a hole. The name of the file is only used in errors. -/
def read (inner : List Char) (file : String) : Hole :=
  if inner.isEmpty then empty
  else
    match Text.dropPrefix? "env.".toList inner with
    | some inner =>
      -- A missing default is an empty one.
      let (name, default) := (Text.splitOnce ':' inner).getD (inner, [])
      reference (String.ofList (Text.trimChars name)) (String.ofList default)
    | none =>
      match Node.parseExpression (String.ofList inner) file with
      | .ok node => expression node
      | .error e =>
        -- What is no expression may still be a name with a default.
        match Text.splitOnce ':' inner with
        | some (name, default) =>
          if isVariableName (Text.trimChars name) then
            reference (String.ofList (Text.trimChars name)) (String.ofList default)
          else unreadable e.message
        | none => unreadable e.message

end Hole

end BlockConfig
