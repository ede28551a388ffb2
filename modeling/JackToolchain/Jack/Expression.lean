import JackToolchain.Jack.Operator
import JackToolchain.Symbol.Scope

/-!
# Expressions

Expressions as they are written, with every name resolved to the cell it stands for.

* `Place` — a cell of a memory segment.
* `Expression` — a term, then any number of binary operators each with a term.  Which operator is
  computed first is not decided here; the code generator does that by precedence.
* `Term` — a constant, a variable, an array element, a call, an expression in parentheses, or a unary
  operator with its term.
* `Call` — a call before it is placed in an expression or a statement.
-/

namespace JackToolchain.Jack

/-- The cell in which a variable lives. -/
structure Place where
  segment : Vm.Segment
  index : Nat
  deriving DecidableEq

namespace Place

/-- The cell that refers to the current object. -/
def self : Place := ⟨.pointer, 0⟩

/-- The cell of a declared variable. -/
def ofEntry (entry : Symbol.Entry) : Place := ⟨entry.kind.segment, entry.index⟩

/-- Puts the content of a cell on the stack. -/
def push (place : Place) : Vm.Instruction := .push place.segment place.index

/-- Takes the top of the stack into a cell. -/
def pop (place : Place) : Vm.Instruction := .pop place.segment place.index

end Place

mutual

/-- An operand. -/
inductive Term where
  | integer (value : Nat)
  | string (content : List Char)
  | true_
  | false_
  | null
  /-- The current object. -/
  | this
  | variable (place : Place)
  /-- An element of the array to which a variable refers. -/
  | element (array : Place) (index : Expression)
  /-- A call.  The receiver, if there is one, is passed in front of the arguments. -/
  | call (callee : String) (receiver : Option Place) (arguments : List Expression)
  /-- An expression in parentheses. -/
  | group (inner : Expression)
  | unary (operator : UnaryOperator) (operand : Term)

/-- Terms with binary operators between them, from left to right. -/
inductive Expression where
  | chain (first : Term) (rest : List (BinaryOperator × Term))

end

/-- A call: the function, the object passed in front of the arguments, and the arguments. -/
structure Call where
  callee : String
  receiver : Option Place
  arguments : List Expression

/-- A call as an operand. -/
def Call.term (call : Call) : Term := .call call.callee call.receiver call.arguments

end JackToolchain.Jack
