import JackToolchain.Jack.Class.Code
import JackToolchain.Jack.Class.Parser
import JackToolchain.Token.Lexer

/-!
# Compiling classes

The classes of a program are compiled one after the other.  They share the names of the library
routines and the numbering of branching statements, which is never set back: a class that turns out
to be faulty has used up the numbers it took.

* `CompiledClass` — the name and code of a class.
* `Session` — what is shared.
* `Session.compile` — compiles one class.
-/

namespace JackToolchain.Jack

/-- A compiled class. -/
structure CompiledClass where
  name : String
  code : List Vm.Instruction
  deriving DecidableEq

/-- What the classes of a program share. -/
structure Session where
  library : Library
  /-- The number of the next branching statement. -/
  nextLabel : Nat := 0
  deriving DecidableEq

/-- A budget for reading tokens that is never used up. -/
def readingBudget (tokens : List Located) : Nat := tokens.length + 1

/-- The state in front of the tokens of a class. -/
def State.ofTokens (tokens : List Located) (nextLabel : Nat) : State where
  cursor := .ofTokens tokens
  nextLabel := nextLabel

namespace Session

/-- Compiles the tokens of a class. -/
def compileTokens (session : Session) (tokens : List Located) :
    Except Error CompiledClass × Session :=
  match (Parser.class_ (readingBudget tokens)).run (.ofTokens tokens session.nextLabel) with
  | .ok cls state =>
    (.ok ⟨cls.name, cls.code session.library⟩, { session with nextLabel := state.nextLabel })
  | .error fault state =>
    (.error (state.report fault), { session with nextLabel := state.nextLabel })

/-- Compiles a class.  A text that does not fall into tokens takes no label numbers. -/
def compile (session : Session) (source : String) : Except Error CompiledClass × Session :=
  match tokenize source with
  | .ok tokens => session.compileTokens tokens
  | .error error => (.error error, session)

end Session

end JackToolchain.Jack
