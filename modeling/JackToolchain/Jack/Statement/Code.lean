import JackToolchain.Jack.Expression.Code
import JackToolchain.Jack.Statement

/-!
# Code of statements

* `trueLabel`, `falseLabel`, `topLabel`, `exitLabel` — the jump targets of a numbered statement.
* `Statement.code` — the code of a statement, which leaves the machine's stack as it found it.
* `statementsCode` — the code of statements in order.

A branch tests the negated condition, so the code of its first body stands in front: the jump to
`trueLabel` is taken when the condition does not hold.
-/

namespace JackToolchain.Jack

open Vm

/-- Where the second body of a branch begins. -/
def trueLabel (number : Nat) : String := s!"IF_TRUE{number}"

/-- Where a branch ends. -/
def falseLabel (number : Nat) : String := s!"IF_FALSE{number}"

/-- Where the condition of a loop is computed. -/
def topLabel (number : Nat) : String := s!"WHILE_EXP{number}"

/-- Where a loop ends. -/
def exitLabel (number : Nat) : String := s!"WHILE_END{number}"

/-- With an address and a value on the stack: stores the value at the address.  The value is set
aside first, since the segment at the address can only be moved afterwards. -/
def storeElement : List Instruction :=
  [.pop .temp 0, .pop .pointer 1, .push .temp 0, .pop .that 0]

/-- Takes a result off the stack. -/
def forget : Instruction := .pop .temp 0

mutual

/-- The code of a statement, to be put together with other code. -/
def Statement.passage (library : Library) : Statement → Passage
  | .assign target value => value.passage library ++ Passage.block [target.pop]
  | .assignElement array index value =>
    Passage.block [array.push] ++ index.passage library ++ Passage.block [.operate .add] ++
      value.passage library ++ Passage.block storeElement
  | .branch number condition whenTrue whenFalse =>
    condition.passage library ++ Passage.block [.operate .not, .ifGoto (trueLabel number)] ++
      statementsPassage library whenTrue ++
      Passage.block [.goto (falseLabel number), .label (trueLabel number)] ++
      statementsPassage library whenFalse ++ Passage.block [.label (falseLabel number)]
  | .loop number condition body =>
    Passage.block [.label (topLabel number)] ++ condition.passage library ++
      Passage.block [.operate .not, .ifGoto (exitLabel number)] ++
      statementsPassage library body ++
      Passage.block [.goto (topLabel number), .label (exitLabel number)]
  | .run call => call.passage library ++ Passage.block [forget]
  | .leave none => .block [.push .constant 0, .return_]
  | .leave (some value) => value.passage library ++ Passage.block [.return_]

/-- The code of statements, to be put together with other code. -/
def statementsPassage (library : Library) : List Statement → Passage
  | [] => .block []
  | statement :: rest => statement.passage library ++ statementsPassage library rest

end

/-- The code of a statement. -/
def Statement.code (library : Library) (statement : Statement) : List Instruction :=
  (statement.passage library).code

/-- The code of statements, one after the other. -/
def statementsCode (library : Library) (statements : List Statement) : List Instruction :=
  (statementsPassage library statements).code

/-- Statements are compiled one by one. -/
theorem statementsCode_eq_flatMap (library : Library) (statements : List Statement) :
    statementsCode library statements = statements.flatMap (·.code library) := by
  induction statements with
  | nil => simp [statementsCode, statementsPassage]
  | cons statement rest ih =>
    simpa [statementsCode, statementsPassage, Statement.code] using ih

/-! ## The code of each kind of statement -/

namespace Statement

variable (library : Library)

theorem code_assign (target : Place) (value : Expression) :
    (assign target value).code library = value.code library ++ [target.pop] := by
  change (value.passage library ++ Passage.block [target.pop]).code = _
  simp [Expression.code]

theorem code_assignElement (array : Place) (index value : Expression) :
    (assignElement array index value).code library =
      array.push :: index.code library ++ [Instruction.operate .add] ++ value.code library ++
        storeElement := by
  change (Passage.block [array.push] ++ index.passage library ++ Passage.block [.operate .add] ++
    value.passage library ++ Passage.block storeElement).code = _
  simp [Expression.code]

theorem code_branch (number : Nat) (condition : Expression)
    (whenTrue whenFalse : List Statement) :
    (branch number condition whenTrue whenFalse).code library =
      condition.code library ++ [Instruction.operate .not, .ifGoto (trueLabel number)] ++
        statementsCode library whenTrue ++
        [Instruction.goto (falseLabel number), .label (trueLabel number)] ++
        statementsCode library whenFalse ++ [Instruction.label (falseLabel number)] := by
  change (condition.passage library ++ Passage.block [.operate .not, .ifGoto (trueLabel number)] ++
    statementsPassage library whenTrue ++ Passage.block [.goto (falseLabel number), .label (trueLabel number)] ++
    statementsPassage library whenFalse ++ Passage.block [.label (falseLabel number)]).code = _
  simp [Expression.code, statementsCode]

theorem code_loop (number : Nat) (condition : Expression) (body : List Statement) :
    (loop number condition body).code library =
      Instruction.label (topLabel number) :: condition.code library ++
        [Instruction.operate .not, .ifGoto (exitLabel number)] ++ statementsCode library body ++
        [Instruction.goto (topLabel number), .label (exitLabel number)] := by
  change (Passage.block [.label (topLabel number)] ++ condition.passage library ++
    Passage.block [.operate .not, .ifGoto (exitLabel number)] ++ statementsPassage library body ++
    Passage.block [.goto (topLabel number), .label (exitLabel number)]).code = _
  simp [Expression.code, statementsCode]

theorem code_run (call : Call) :
    (run call).code library = call.code library ++ [forget] := by
  change (call.passage library ++ Passage.block [forget]).code = _
  simp [Call.code]

theorem code_leave_none :
    (leave none).code library = [.push .constant 0, .return_] :=
  Passage.code_block _

theorem code_leave_some (value : Expression) :
    (leave (some value)).code library = value.code library ++ [Instruction.return_] := by
  change (value.passage library ++ Passage.block [.return_]).code = _
  simp [Expression.code]

end Statement

end JackToolchain.Jack
