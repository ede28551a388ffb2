import JackToolchain.Counter
import JackToolchain.Jack.Expression
import JackToolchain.Jack.OperatorStack
import JackToolchain.Vm.Passage

/-!
# Code of expressions

Operands are computed where they stand; operators go through an operator stack that releases them by
precedence.

* `Emission` — code together with the operators that still wait.
* `Term.emit`, `Expression.emit` — code on a stack that may hold operators of an enclosing
  expression.  Parentheses and array indices put a barrier on that stack; an argument of a call
  begins with an empty stack of its own.
* `Expression.code` — the code of a whole expression, which leaves its value on the machine's stack.
* `Call.code` — the code of a call, which leaves its result there.
-/

namespace JackToolchain.Jack

open Vm

/-- Code, and the operators that still wait for their place in it. -/
structure Emission where
  passage : Passage
  pending : OperatorStack

/-- The instructions of operators that were released. -/
def Release.passage (library : Library) (release : Release) : Passage :=
  .block (release.operators.map (·.instruction library))

/-- The code of an emission together with the operators that still wait. -/
def Emission.finish (library : Library) (emission : Emission) : Passage :=
  emission.passage ++ emission.pending.flush.passage library

/-- A string constant: an empty string with room for its characters, which are then appended. -/
def stringCode (library : Library) (content : List Char) : List Instruction :=
  .push .constant content.length :: .call library.newString 1 ::
    content.flatMap fun c => [.push .constant c.toNat, .call library.appendCharacter 2]

/-- What a call passes in front of its arguments. -/
def receiverCode (receiver : Option Place) : List Instruction := (receiver.map Place.push).toList

/-- The instruction that calls, once everything is passed. -/
def callInstruction (callee : String) (receiver : Option Place) (arguments : List Expression) :
    Instruction :=
  .call callee (counted (arguments.length + receiver.toList.length))

/-- With the address of an element on top of the stack: puts its value there instead. -/
def loadElement : List Instruction := [.operate .add, .pop .pointer 1, .push .that 0]

mutual

/-- The code of a term, given the operators that wait for it. -/
def Term.emit (library : Library) (pending : OperatorStack) : Term → Emission
  | .integer value => ⟨.block [.push .constant value], pending⟩
  | .string content => ⟨.block (stringCode library content), pending⟩
  | .true_ => ⟨.block [.push .constant 0, .operate .not], pending⟩
  | .false_ => ⟨.block [.push .constant 0], pending⟩
  | .null => ⟨.block [.push .constant 0], pending⟩
  | .this => ⟨.block [Place.self.push], pending⟩
  | .variable place => ⟨.block [place.push], pending⟩
  | .element array index =>
    let inner := index.emit library (pending.enclose .square)
    let closed := (inner.pending.close .square).1
    ⟨Passage.block [array.push] ++ inner.passage ++ closed.passage library ++
        Passage.block loadElement,
      closed.stack⟩
  | .call callee receiver arguments =>
    ⟨Passage.block (receiverCode receiver) ++ argumentsPassage library arguments ++
        Passage.block [callInstruction callee receiver arguments],
      pending⟩
  | .group inner =>
    let inner := inner.emit library (pending.enclose .round)
    let closed := (inner.pending.close .round).1
    ⟨inner.passage ++ closed.passage library, closed.stack⟩
  | .unary operator operand =>
    let released := pending.push (.unary operator)
    let behind := operand.emit library released.stack
    ⟨released.passage library ++ behind.passage, behind.pending⟩

/-- The code of an expression, given the operators that wait for it. -/
def Expression.emit (library : Library) (pending : OperatorStack) : Expression → Emission
  | .chain first rest =>
    let front := first.emit library pending
    let behind := emitRest library front.pending rest
    ⟨front.passage ++ behind.passage, behind.pending⟩

/-- The code of the operators and terms behind the first term. -/
def emitRest (library : Library) (pending : OperatorStack) :
    List (BinaryOperator × Term) → Emission
  | [] => ⟨.block [], pending⟩
  | (operator, operand) :: rest =>
    let released := pending.push (.binary operator)
    let front := operand.emit library released.stack
    let behind := emitRest library front.pending rest
    ⟨released.passage library ++ front.passage ++ behind.passage, behind.pending⟩

/-- The code of the arguments of a call, each with an empty operator stack. -/
def argumentsPassage (library : Library) : List Expression → Passage
  | [] => .block []
  | argument :: rest =>
    (argument.emit library {}).finish library ++ argumentsPassage library rest

end

/-- The code of a whole expression, to be put together with other code. -/
def Expression.passage (library : Library) (expression : Expression) : Passage :=
  (expression.emit library {}).finish library

/-- The code of a whole expression. -/
def Expression.code (library : Library) (expression : Expression) : List Instruction :=
  (expression.passage library).code

/-- The code of a call, to be put together with other code. -/
def Call.passage (library : Library) (call : Call) : Passage :=
  Passage.block (receiverCode call.receiver) ++ argumentsPassage library call.arguments ++
    Passage.block [callInstruction call.callee call.receiver call.arguments]

/-- The code of a call. -/
def Call.code (library : Library) (call : Call) : List Instruction := (call.passage library).code

@[simp] theorem Release.code_passage (library : Library) (release : Release) :
    (release.passage library).code = release.operators.map (·.instruction library) := by
  simp [Release.passage]

/-- The arguments of a call are computed one after the other. -/
@[simp] theorem argumentsPassage_code (library : Library) (arguments : List Expression) :
    (argumentsPassage library arguments).code = arguments.flatMap (·.code library) := by
  induction arguments with
  | nil => simp [argumentsPassage]
  | cons argument rest ih =>
    simp [argumentsPassage, Expression.code, Expression.passage, ih]

/-- A call has the same code as an operand and as a statement. -/
theorem Call.emit_term (library : Library) (pending : OperatorStack) (call : Call) :
    call.term.emit library pending = ⟨call.passage library, pending⟩ := by
  simp [Call.term, Term.emit, Call.passage]

end JackToolchain.Jack
