import JackToolchain.Library
import JackToolchain.Vm.Instruction

/-!
# Operators of expressions

* `BinaryOperator`, `UnaryOperator` — the operators, each spelled by one character.
* `Operator.precedence` — how tightly an operator binds: comparisons, then sums, then products, then
  the bitwise operators, and the unary operators tightest.
* `Operator.instruction` — what computes an operator; multiplication and division are calls of
  library routines.
-/

namespace JackToolchain.Jack

/-- An operator between two operands. -/
inductive BinaryOperator where
  | add | sub | mul | div | and | or | lt | gt | eq
  deriving DecidableEq

/-- An operator in front of its operand. -/
inductive UnaryOperator where
  | neg | not
  deriving DecidableEq

namespace BinaryOperator

/-- Every binary operator once. -/
def all : List BinaryOperator := [add, sub, mul, div, and, or, lt, gt, eq]

/-- The character that spells an operator. -/
def symbol : BinaryOperator → Char
  | add => '+'
  | sub => '-'
  | mul => '*'
  | div => '/'
  | and => '&'
  | or => '|'
  | lt => '<'
  | gt => '>'
  | eq => '='

/-- The operator that a character spells between two operands. -/
def ofSymbol? (c : Char) : Option BinaryOperator := all.find? (·.symbol == c)

@[simp] theorem ofSymbol?_symbol (operator : BinaryOperator) :
    ofSymbol? operator.symbol = some operator := by
  cases operator <;> decide

theorem symbol_of_ofSymbol? {c : Char} {operator : BinaryOperator}
    (h : ofSymbol? c = some operator) : operator.symbol = c := by
  simpa using List.find?_some h

end BinaryOperator

namespace UnaryOperator

/-- Every unary operator once. -/
def all : List UnaryOperator := [neg, not]

/-- The character that spells an operator. -/
def symbol : UnaryOperator → Char
  | neg => '-'
  | not => '~'

/-- The operator that a character spells in front of an operand. -/
def ofSymbol? (c : Char) : Option UnaryOperator := all.find? (·.symbol == c)

@[simp] theorem ofSymbol?_symbol (operator : UnaryOperator) :
    ofSymbol? operator.symbol = some operator := by
  cases operator <;> decide

theorem symbol_of_ofSymbol? {c : Char} {operator : UnaryOperator}
    (h : ofSymbol? c = some operator) : operator.symbol = c := by
  simpa using List.find?_some h

end UnaryOperator

/-- An operator of either kind. -/
inductive Operator where
  | binary (operator : BinaryOperator)
  | unary (operator : UnaryOperator)
  deriving DecidableEq

namespace Operator

/-- How tightly an operator binds. -/
def precedence : Operator → Nat
  | .binary .lt | .binary .gt | .binary .eq => 0
  | .binary .add | .binary .sub => 1
  | .binary .mul | .binary .div => 2
  | .binary .and | .binary .or => 3
  | .unary _ => 4

/-- The instruction that computes an operator on the top of the stack. -/
def instruction (library : Library) : Operator → Vm.Instruction
  | .binary .add => .operate .add
  | .binary .sub => .operate .sub
  | .binary .mul => .call library.multiply 2
  | .binary .div => .call library.divide 2
  | .binary .and => .operate .and
  | .binary .or => .operate .or
  | .binary .lt => .operate .lt
  | .binary .gt => .operate .gt
  | .binary .eq => .operate .eq
  | .unary .neg => .operate .neg
  | .unary .not => .operate .not

end Operator

end JackToolchain.Jack
