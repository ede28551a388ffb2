import JackToolchain.Jack.Expression

/-!
# Statements

Statements with every name resolved and every branching statement numbered.  The numbers keep the
jump targets of different statements apart.
-/

namespace JackToolchain.Jack

/-- A statement. -/
inductive Statement where
  /-- Stores a value in a variable. -/
  | assign (target : Place) (value : Expression)
  /-- Stores a value in an element of the array to which a variable refers. -/
  | assignElement (array : Place) (index value : Expression)
  /-- Runs one of two bodies.  A missing second body is an empty one. -/
  | branch (number : Nat) (condition : Expression) (whenTrue whenFalse : List Statement)
  /-- Repeats a body as long as the condition holds. -/
  | loop (number : Nat) (condition : Expression) (body : List Statement)
  /-- Calls a function and forgets its result. -/
  | run (call : Call)
  /-- Leaves the subroutine, with a value or without. -/
  | leave (value : Option Expression)

end JackToolchain.Jack
